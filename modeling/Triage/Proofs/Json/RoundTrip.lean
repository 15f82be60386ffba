import Mathlib.Algebra.Group.Nat.Defs
import Triage.Diagnostic.Record
import Triage.Proofs.Json.Record
import Triage.Summary.Record

set_option autoImplicit false

namespace Triage
open Json

theorem slots_diagnostic (d : Diagnostic) : slots Diagnostic.fieldNames d.toJson = some
    [.given (ofOption ofText d.file), .given (ofOption (fun n => ofNat n.toNat) d.line),
      .given (ofOption (fun n => ofNat n.toNat) d.column), .given (ofNat d.code.toNat),
      .given d.severity.toJson, .given (ofText d.message)] :=
  slots_record (by simp) fun _ h => h

theorem restores_diagnostic (d : Diagnostic) : Restores Diagnostic.ofJson Diagnostic.toJson d := by
  have hfile := restores_option restores_text (fun _ => nofun) d.file
  have hline := restores_option restores_word (fun _ => nofun) d.line
  have hcolumn := restores_option restores_word (fun _ => nofun) d.column
  have hcode := restores_word d.code
  have hseverity : Restores Severity.ofJson Severity.toJson d.severity :=
    restores_oneOf Severity.ofWord?_word d.severity
  have hmessage := restores_text d.message
  refine ⟨.record ?_, ?_⟩
  · simpa only [List.forall_mem_cons] using ⟨hfile.spelt, hline.spelt, hcolumn.spelt, hcode.spelt,
      hseverity.spelt, hmessage.spelt, List.forall_mem_nil _⟩
  · simp only [Diagnostic.ofJson, slots_diagnostic]
    simp [required_given, hfile.decode, hline.decode, hcolumn.decode, hcode.decode,
      hseverity.decode, hmessage.decode]

section Rules

theorem restores_codes {ν : Type} {d : Decoder ν} {f : ν → Json} {m : SortedMap Code ν}
    (h : ∀ v ∈ m.values, Restores d f v) : Restores (map plainWord? d) (ofMap codeKey f) m :=
  restores_map (fun c => ⟨codeKey c, (escape_ofNat c.toNat).symm⟩) plainWord?_ofNat h

theorem restores_files {ν : Type} {d : Decoder ν} {f : ν → Json} {m : SortedMap Text ν}
    (h : ∀ v ∈ m.values, Restores d f v) : Restores (map unescape d) (ofMap escape f) m :=
  restores_map (fun path => ⟨path, rfl⟩) unescape_escape h

theorem restores_fileRules (r : FileRules) : Restores FileRules.ofJson FileRules.toJson r := by
  have hdefault := restores_oneOf DefaultRule.ofName?_name r.default
  have hcodes := restores_codes (m := r.codes) fun c _ => restores_oneOf CodeRule.ofKey?_key c
  have hs : slots FileRules.fieldNames r.toJson = some
      [.given (ofText r.default.name), .given (ofMap codeKey (fun c => ofText c.key) r.codes)] :=
    slots_record (by simp) fun _ h => h
  refine ⟨.record ?_, ?_⟩
  · simpa only [List.forall_mem_cons] using
      ⟨hdefault.spelt, hcodes.spelt, List.forall_mem_nil _⟩
  · simp only [FileRules.ofJson, hs]
    simp [required_given, hdefault.decode, hcodes.decode]

theorem restores_projectRules (r : ProjectRules) :
    Restores ProjectRules.ofJson ProjectRules.toJson r :=
  restores_files fun r _ => restores_fileRules r

end Rules

section Summaries
variable {count : Decoder Nat}

def Tally.counted (t : Tally) : List Nat := t.raised.values ++ t.ignored.values

theorem restores_tally {t : Tally} (h : ∀ n ∈ t.counted, Restores count ofNat n) :
    Restores (Tally.ofJsonWith count) Tally.toJson t := by
  obtain ⟨hr, hi⟩ := List.forall_mem_append.1 h
  have hraised := restores_codes hr
  have hignored := restores_codes hi
  have hstale : Restores (list word) _ t.stale.keys := restores_list fun c _ => restores_word c
  have hdefault := restores_flag t.staleDefault
  have hs : slots Tally.fieldNames t.toJson = some
      [.given (ofMap codeKey ofNat t.raised), .given (ofMap codeKey ofNat t.ignored),
        .given (.array (t.stale.keys.map fun c => ofNat c.toNat)), .given (.bool t.staleDefault)] :=
    slots_record (by simp) fun _ h => h
  refine ⟨.record ?_, ?_⟩
  · simpa only [List.forall_mem_cons] using ⟨hraised.spelt, hignored.spelt, hstale.spelt,
      hdefault.spelt, List.forall_mem_nil _⟩
  · simp only [Tally.ofJsonWith, hs]
    simp [required_given, hraised.decode, hignored.decode, hstale.decode, hdefault.decode,
      SortedMap.ofList_keys]

theorem restores_summary {s : Summary}
    (h : ∀ t ∈ s.values, ∀ n ∈ t.counted, Restores count ofNat n) :
    Restores (Summary.ofJsonWith count) Summary.toJson s := by
  have hfiles := restores_files fun t ht => restores_tally (h t ht)
  have hs : slots ["files".toList] s.toJson = some [.given (ofMap escape Tally.toJson s)] :=
    slots_record (by simp) fun _ h => h
  refine ⟨.record ?_, ?_⟩
  · simpa only [List.forall_mem_cons] using ⟨hfiles.spelt, List.forall_mem_nil _⟩
  · simp only [Summary.ofJsonWith, hs]
    exact hfiles.decode

def Summary.Fits (s : Summary) : Prop := ∀ t ∈ s.values, ∀ n ∈ t.counted, n < 2 ^ 64

instance (s : Summary) : Decidable s.Fits :=
  inferInstanceAs (Decidable (∀ t ∈ s.values, ∀ n ∈ t.counted, n < 2 ^ 64))

end Summaries

/-- Written in any layout and read as what they are, diagnostics, rules and summaries come back. -/
theorem read_written {l : Layout} (hl : l.Blank) (depth : Nat) :
    (∀ d : Diagnostic, (read (d.toJson.write l depth)).bind Diagnostic.ofJson = some d) ∧
    (∀ r : FileRules, (read (r.toJson.write l depth)).bind FileRules.ofJson = some r) ∧
    (∀ r : ProjectRules, (read (r.toJson.write l depth)).bind ProjectRules.ofJson = some r) ∧
    ∀ s : Summary, s.Fits → (read (s.toJson.write l depth)).bind Summary.ofJson = some s := by
  refine ⟨fun d => ?_, fun r => ?_, fun r => ?_, fun s hs => ?_⟩
  · exact (restores_diagnostic d).read hl depth
  · exact (restores_fileRules r).read hl depth
  · exact (restores_projectRules r).read hl depth
  · have hn : ∀ t ∈ s.values, ∀ n ∈ t.counted, Restores natural ofNat n := fun t ht n hn =>
      restores_natural (hs t ht n hn)
    exact (restores_summary hn).read hl depth

/-- Quotes, backslashes and control characters in texts, and the largest code and count. -/
theorem read_written_escapes :
    let d : Diagnostic := ⟨some "/\"a\"\\\x01.ts".toList, some 3, none, 4294967295, .suggestion,
      "é\n\t\x7f".toList⟩
    let r : ProjectRules :=
      .ofList [("/\x1b".toList, ⟨.onlyErrors, .ofList [(10, .asError), (9, .ignore)]⟩)]
    let s : Summary :=
      .ofList [([], ⟨.ofList [(0, 18446744073709551615)], .empty, .ofList [7, 4], true⟩)]
    s.Fits ∧ (read d.toJson.compact).bind Diagnostic.ofJson = some d ∧
      (read r.toJson.pretty).bind ProjectRules.ofJson = some r ∧
      (read s.toJson.pretty).bind Summary.ofJson = some s := by
  intro d r s
  have hc := read_written Layout.blank_compact 0
  have hp := read_written Layout.blank_pretty 0
  have hs : s.Fits := by decide
  exact ⟨hs, hc.1 d, hp.2.2.1 r, hp.2.2.2 s hs⟩

end Triage
