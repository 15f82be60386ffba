import Triage.Program
import Triage.Proofs.Json.Record
import Triage.Proofs.Text.Utf8
import Triage.Proofs.Toml.Document
import Triage.Proofs.World.Attempt

set_option autoImplicit false

namespace Triage

theorem SummaryMode.ofWord?_word (m : SummaryMode) : ofWord? m.word = some m := by
  cases m <;> rfl

theorem InputFormat.ofWord?_word (f : InputFormat) : ofWord? f.word = some f := by
  cases f <;> rfl

theorem Action.run_getText {w : World} {path t : Text} (h : w.read path = .ok (Utf8.encode t)) :
    (getText path).run w = ⟨.ok t, w, []⟩ := by
  have ht : textOf (Utf8.encode t) = .ok t := by
    rw [textOf, Utf8.strict_encode]
  have hr : (getText path).run w = ⟨w.read path >>= textOf, w, []⟩ := rfl
  rw [hr, h]
  exact congrArg (Outcome.mk · w []) ht

namespace Toml

theorem texts_array (ts : List Text) : texts (.array (ts.map .string)) = some ts :=
  (Json.mapM_map (k := id) (g := text) fun _ _ => rfl).trans (congrArg some (List.map_id ts))

theorem orElse_some {α : Type} (d : Decoder α) (default : α) (v : Toml) :
    orElse d default (some v) = d v := rfl

end Toml

namespace Settings
open Toml

def Output.headed (o : Output) : Headed where
  name := "output".toList
  entries := [
    .ofFlag "diagnostic_logging".toList (by decide) o.logging,
    .ofText "summary".toList (by decide) o.summary.word,
    .ofFlag "exit_code_zero".toList (by decide) o.alwaysSucceed]
  bare := by decide
  nodup := (by decide :
    ["diagnostic_logging".toList, "summary".toList, "exit_code_zero".toList].Nodup)

def Compiler.headed (c : Compiler) : Headed where
  name := "compiler".toList
  entries := [
    .ofTexts "command".toList (by decide) c.command,
    .ofText "format".toList (by decide) c.format.word] ++
    (c.messages.map (.ofText "messages".toList (by decide))).toList
  bare := by decide
  nodup := by
    cases c.messages with
    | none => exact (by decide : ["command".toList, "format".toList].Nodup)
    | some _ => exact (by decide : ["command".toList, "format".toList, "messages".toList].Nodup)

def Sources.headed (s : Sources) : Headed where
  name := "sources".toList
  entries := [
    .ofFlag "discover".toList (by decide) s.discover,
    .ofTexts "patterns".toList (by decide) s.patterns]
  bare := by decide
  nodup := (by decide : ["discover".toList, "patterns".toList].Nodup)

def document (s : Settings) : Document where
  entries := [.ofText "attr_prefix".toList (by decide) s.stem]
  tables := [s.output.headed, s.compiler.headed, s.sources.headed]
  nodup := (by decide :
    ["attr_prefix".toList, "output".toList, "compiler".toList, "sources".toList].Nodup)

theorem Output.text_headed (o : Output) : o.headed.text = "\n[output]\n".toList ++
    [line "diagnostic_logging" (flagText o.logging), line "summary" (quote o.summary.word),
      line "exit_code_zero" (flagText o.alwaysSucceed)].flatten := rfl

theorem Compiler.text_headed (c : Compiler) : c.headed.text = "\n[compiler]\n".toList ++
    [line "command" (listText c.command), line "format" (quote c.format.word),
      match c.messages with
      | some m => line "messages" (quote m)
      | none => []].flatten := by
  rcases c with ⟨_, _, _ | _⟩ <;> rfl

theorem Sources.text_headed (s : Sources) : s.headed.text = "\n[sources]\n".toList ++
    [line "discover" (flagText s.discover), line "patterns" (listText s.patterns)].flatten := rfl

theorem text_document (s : Settings) : s.document.text = write s := by
  have ht : s.document.text = [line "attr_prefix" (quote s.stem)].flatten ++
      [s.output.headed.text, s.compiler.headed.text, s.sources.headed.text].flatten := rfl
  rw [ht]
  rcases s with ⟨stem, output, ⟨command, format, _ | m⟩, sources⟩ <;>
  simp only [Output.text_headed, Compiler.text_headed, Sources.text_headed, write,
    List.flatten_cons, List.flatten_nil, List.append_assoc, List.append_nil]

theorem Output.ofToml_headed (o : Output) : Output.ofToml o.headed.member.2 = some o := by
  have hs : slots ["diagnostic_logging".toList, "summary".toList, "exit_code_zero".toList]
      o.headed.member.2 = some [some (.boolean o.logging), some (.string o.summary.word),
        some (.boolean o.alwaysSucceed)] := rfl
  have hm : oneOf SummaryMode.ofWord? (.string o.summary.word) = some o.summary :=
    SummaryMode.ofWord?_word _
  simp only [Output.ofToml, hs, orElse_some, flag, hm, Option.bind_eq_bind, Option.bind_some]
  rfl

theorem Compiler.ofToml_headed (c : Compiler) : Compiler.ofToml c.headed.member.2 = some c := by
  have hs : slots ["command".toList, "format".toList, "messages".toList] c.headed.member.2 =
      some [some (.array (c.command.map .string)), some (.string c.format.word),
        c.messages.map .string] := by
    rcases c with ⟨_, _, _ | _⟩ <;> rfl
  have hf : oneOf InputFormat.ofWord? (.string c.format.word) = some c.format :=
    InputFormat.ofWord?_word _
  have hm : orElse (fun v => (text v).map some) Compiler.messagesDefault
      (c.messages.map .string) = some c.messages := by
    cases c.messages <;> rfl
  simp only [Compiler.ofToml, hs, hm, orElse_some, texts_array, hf, Option.bind_eq_bind,
    Option.bind_some]
  rfl

theorem Sources.ofToml_headed (s : Sources) : Sources.ofToml s.headed.member.2 = some s := by
  have hs : slots ["discover".toList, "patterns".toList] s.headed.member.2 =
      some [some (.boolean s.discover), some (.array (s.patterns.map .string))] := rfl
  simp only [Sources.ofToml, hs, orElse_some, flag, texts_array, Option.bind_eq_bind,
    Option.bind_some]
  rfl

theorem ofToml_table (s : Settings) : ofToml s.document.table = some s := by
  have hs : slots ["attr_prefix".toList, "output".toList, "compiler".toList, "sources".toList]
      s.document.table = some [some (.string s.stem), some s.output.headed.member.2,
        some s.compiler.headed.member.2, some s.sources.headed.member.2] := rfl
  simp only [ofToml, hs, orElse_some, text, Output.ofToml_headed, Compiler.ofToml_headed,
    Sources.ofToml_headed, Option.bind_eq_bind, Option.bind_some]
  rfl

theorem read_document (s : Settings) : read (write s) = some s := by
  rw [read, ← text_document, Document.read_text]
  exact ofToml_table s

/-- Settings are read back from their document as a whole, an absent message table as absent, and so
are they loaded from any file that holds it. -/
theorem loads_written (s : Settings) :
    read (write s) = some s ∧
      ∀ {path : Text} {w : World}, w.read path = .ok (Utf8.encode (write s)) →
        (Program.settingsIn path).run w = ⟨.ok s, w, []⟩ := by
  refine ⟨read_document s, fun {path w} h => ?_⟩
  have ht := Attempt.run_orFail (Action.run_getText h) fun e => .settings (.unreadable path e)
  rw [Program.settingsIn, Attempt.run_bind_ok ht]
  simp only [read_document, Attempt.run_pure, Outcome.after, List.nil_append]

/-- Quotes of both kinds in a row, a line end, a backslash and control characters. -/
theorem loads_written_quotes :
    let s : Settings := ⟨"a\"\"\"\"b".toList, .default,
      ⟨["'''\\".toList, "\n\"'\x00".toList], .json, some "\r\x7f".toList⟩, ⟨false, [[]]⟩⟩
    let w : World := ⟨.ofList [(["s.toml".toList], .file (Utf8.encode (write s)))], [], .ok ['/'],
      fun _ _ => .error .notFound⟩
    w.read "/s.toml".toList = .ok (Utf8.encode (write s)) ∧
      (Program.settingsIn "/s.toml".toList).run w = ⟨.ok s, w, []⟩ := by
  intro s w
  have h : w.read "/s.toml".toList = .ok (Utf8.encode (write s)) := rfl
  exact ⟨h, (loads_written s).2 h⟩

end Settings
end Triage
