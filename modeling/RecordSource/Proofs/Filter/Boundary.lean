import RecordSource.Proofs.Filter.RoundTrip

/-!
Places between characters. A text is scanned whole characters at a time, so every token starts at such a place, and so
does every fault of scanning or reading lie at one.
-/
namespace RecordSource.Filter

/-- A place between two characters of a text that starts at `pos`, or at one of its ends. -/
def Between (pos : Nat) (cs : List Char) (place : Nat) : Prop :=
  ∃ before after, cs = before ++ after ∧ place = pos + utf8Length before

namespace Between
variable {pos place : Nat} {cs : List Char}

theorem start (pos : Nat) (cs : List Char) : Between pos cs pos := ⟨[], cs, rfl, rfl⟩

theorem stop (pos : Nat) (cs : List Char) : Between pos cs (pos + utf8Length cs) := ⟨cs, [], by simp, rfl⟩

/-- A place between characters further on. -/
theorem later (before : List Char) (h : Between (pos + utf8Length before) cs place) :
    Between pos (before ++ cs) place := by
  obtain ⟨skipped, after, rfl, rfl⟩ := h
  exact ⟨before ++ skipped, after, by simp, by simp [Nat.add_assoc]⟩

theorem next {c : Char} (h : Between (pos + c.utf8Size) cs place) : Between pos (c :: cs) place := later [c] h

end Between

theorem utf8ByteSize_ofList (cs : List Char) : (String.ofList cs).utf8ByteSize = utf8Length cs := by
  induction cs with
  | nil => rfl
  | cons c cs ih => rw [String.ofList_cons, String.utf8ByteSize_append, String.utf8ByteSize_singleton, ih, utf8Length_cons]

theorem utf8ByteSize_eq (text : String) : text.utf8ByteSize = utf8Length text.toList := by
  rw [← utf8ByteSize_ofList, String.ofList_toList]

/-- The places between characters of a text are the valid positions in its bytes. -/
theorem between_iff_isValid {text : String} {place : Nat} :
    Between 0 text.toList place ↔ String.Pos.Raw.IsValid text ⟨place⟩ := by
  rw [String.Pos.Raw.isValid_iff_exists_append]
  constructor
  · rintro ⟨before, after, htext, rfl⟩
    refine ⟨String.ofList before, String.ofList after, ?_, ?_⟩
    · rw [← String.ofList_append, ← htext, String.ofList_toList]
    · rw [String.Pos.Raw.ext_iff, String.byteIdx_rawEndPos, utf8ByteSize_ofList, Nat.zero_add]
  · rintro ⟨before, after, rfl, hplace⟩
    refine ⟨before.toList, after.toList, String.toList_append, ?_⟩
    rw [String.Pos.Raw.ext_iff, String.byteIdx_rawEndPos, utf8ByteSize_eq] at hplace
    exact hplace.trans (Nat.zero_add _).symm

/-! Scanning. -/

namespace Lexeme

theorem between_of_literal?_error {start pos : Nat} {cs : List Char} {place : Nat} {problem : Problem}
    (h : literal? start pos cs = .error (.malformed place problem)) : place = start ∨ Between pos cs place := by
  fun_induction literal? start pos cs with
  | case1 | case3 =>
    cases h
    exact .inl rfl
  | case2 => cases h
  | case4 =>
    cases h
    exact .inr (.start _ _)
  | case5 pos e ds _ _ _ ih =>
    refine (ih (Outcome.map_eq_error_iff.1 h)).imp_right ?_
    intro hlater
    have hskipped : utf8Length ['\\', e] = 1 + e.utf8Size := rfl
    exact Between.later ['\\', e] (by rwa [hskipped, ← Nat.add_assoc])
  | case6 pos c cs _ _ ih =>
    exact (ih (Outcome.map_eq_error_iff.1 h)).imp_right Between.next

theorem between_of_read?_error {pos : Nat} {c : Char} {cs : List Char} {place : Nat} {problem : Problem}
    (h : read? pos c cs = .error (.malformed place problem)) : Between pos (c :: cs) place := by
  unfold read? at h
  split at h
  case h_1 | h_2 | h_3 => cases h
  case h_10 =>
    rcases between_of_literal?_error (Outcome.map_eq_error_iff.1 h) with rfl | hlater
    · exact .start _ _
    · exact hlater.next
  case h_11 =>
    split at h
    · split at h <;> cases h
      exact .start _ _
    · cases h
      exact .start _ _
  all_goals
    split at h <;> cases h <;> exact .start _ _

end Lexeme

theorem between_of_scanFrom_error {pos : Nat} {cs : List Char} {place : Nat} {problem : Problem}
    (h : scanFrom pos cs = .error (.malformed place problem)) : Between pos cs place := by
  fun_induction scanFrom pos cs with
  | case1 => cases h
  | case2 pos c cs _ ih => exact (ih h).next
  | case3 pos c cs _ fault hread =>
    cases h
    exact Lexeme.between_of_read?_error hread
  | case4 pos c cs _ l hread ih =>
    rw [← (Lexeme.read?_tiles hread).1]
    exact (ih (Outcome.map_eq_error_iff.1 h)).later l.spelling

theorem between_of_mem_scanFrom {pos : Nat} {cs : List Char} {ps : List Placed} (h : scanFrom pos cs = .ok ps) :
    ∀ p ∈ ps, Between pos cs p.offset := by
  fun_induction scanFrom pos cs generalizing ps with
  | case1 =>
    cases h
    simp
  | case2 pos c cs _ ih => exact fun p hp => (ih h p hp).next
  | case3 => cases h
  | case4 pos c cs _ l hread ih =>
    obtain ⟨qs, hqs, rfl⟩ := Outcome.map_eq_ok_iff.1 h
    refine List.forall_mem_cons.2 ⟨.start _ _, ?_⟩
    intro p hp
    rw [← (Lexeme.read?_tiles hread).1]
    exact (ih hqs p hp).later l.spelling

end RecordSource.Filter
