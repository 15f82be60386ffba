import Triage.Text

set_option autoImplicit false

namespace Triage

def programName : Text := "diagsieve".toList

def version : Text := "0.3.0".toList

def versionLine (command : Text) : Text := command ++ ' ' :: version ++ ['\n']

end Triage
