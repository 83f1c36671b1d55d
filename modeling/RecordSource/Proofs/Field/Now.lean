import RecordSource.Field.Mapping
import RecordSource.Proofs.Text.Numeral
import RecordSource.Time.Stamp

/-!
The current instant in a value. Once an instant stands for every token none is left, not even one that the instant
might make together with its neighbours, so a value is filled only once.
-/
namespace RecordSource.Text

theorem after?_isSome_iff {ws cs : List Char} : (after? ws cs).isSome = true ↔ ws <+: cs := by
  rw [Option.isSome_iff_exists]
  exact exists_congr fun rest => by rw [after?_eq_some_iff, eq_comm]

theorem replaceFrom_of_not_infix {old new cs : List Char} (h : ¬ old <:+: cs) : replaceFrom old new 0 cs = cs := by
  induction cs with
  | nil => rfl
  | cons c cs ih =>
    rw [List.infix_cons_iff, not_or] at h
    rw [replaceFrom, if_neg (mt after?_isSome_iff.1 h.1), ih h.2]

variable {o n : Char} {body ns : List Char}

/-- What the text after a replacement begins with, the text before it did, if no replacement can have made it. -/
theorem prefix_of_replaceFrom {old ws cs : List Char} (hn : n ∉ ws) (h : ws <+: replaceFrom old (n :: ns) 0 cs) :
    ws <+: cs := by
  induction cs generalizing ws with
  | nil => exact h
  | cons c cs ih =>
    cases ws with
    | nil => exact List.nil_prefix
    | cons w ws =>
      rw [List.mem_cons, not_or] at hn
      rw [replaceFrom] at h
      split at h
      · exact absurd (List.cons_prefix_cons.1 h).1.symm hn.1
      · obtain ⟨rfl, hrest⟩ := List.cons_prefix_cons.1 h
        exact List.cons_prefix_cons.2 ⟨rfl, ih hn.2 hrest⟩

/-- What begins with a character that a text has not begins behind that text. -/
theorem infix_of_infix_append {xs ys : List Char} (ho : o ∉ xs) (h : o :: body <:+: xs ++ ys) : o :: body <:+: ys := by
  induction xs with
  | nil => exact h
  | cons x xs ih =>
    rw [List.mem_cons, not_or] at ho
    rcases List.infix_cons_iff.1 h with hfirst | hrest
    · exact absurd (List.cons_prefix_cons.1 hfirst).1 ho.1
    · exact ih ho.2 hrest

/-- No occurrence is left after a replacement that has no first character of one and starts with no other. -/
theorem not_infix_replaceFrom (ho : o ∉ n :: ns) (hn : n ∉ body) (skip : Nat) (cs : List Char) :
    ¬ o :: body <:+: replaceFrom (o :: body) (n :: ns) skip cs := by
  fun_induction replaceFrom (o :: body) (n :: ns) skip cs with
  | case1 => simp
  | case2 _ _ _ ih => exact ih
  | case3 c cs _ ih => exact fun h => ih (infix_of_infix_append ho h)
  | case4 c cs hnone ih =>
    intro h
    rcases List.infix_cons_iff.1 h with hfirst | hrest
    · obtain ⟨rfl, hbody⟩ := List.cons_prefix_cons.1 hfirst
      exact hnone (after?_isSome_iff.2 (List.cons_prefix_cons.2 ⟨rfl, prefix_of_replaceFrom hn hbody⟩))
    · exact ih hrest

theorem infix_joinWith (sep : List Char) {p : List Char} {ps : List (List Char)} (h : p ∈ ps) : p <:+: joinWith sep ps := by
  induction ps with
  | nil => cases h
  | cons q ps ih =>
    cases ps with
    | nil =>
      obtain rfl := List.mem_singleton.1 h
      exact List.infix_refl p
    | cons r rs =>
      rw [joinWith, List.append_assoc]
      rcases List.mem_cons.1 h with rfl | hrest
      · exact (List.prefix_append p _).isInfix
      · exact (ih hrest).trans ((List.suffix_append sep _).isInfix.trans (List.suffix_append q _).isInfix)

theorem infix_of_mem_pieces {sep : Char} {cs p : List Char} (h : p ∈ pieces sep cs) : p <:+: cs := by
  have hjoin := infix_joinWith [sep] h
  rwa [joinWith_pieces] at hjoin

end RecordSource.Text

namespace RecordSource.Time

theorem isDigit_of_mem_padded (width k : Nat) : ∀ c ∈ padded width k, c.isDigit = true :=
  Text.isDigit_of_mem_numeral _ k

/-- The characters of the texts of instants. -/
def isStampChar (c : Char) : Bool := c.isDigit || ['+', '-', 'T', ':', '.', 'Z'].contains c

theorem stampText_chars (k : Nat) : ∀ c ∈ stampText k, isStampChar c = true := by
  have hpadded : ∀ width k, ∀ c ∈ padded width k, isStampChar c = true := by
    intro width k c hc
    simp [isStampChar, isDigit_of_mem_padded width k c hc]
  have hyear : ∀ year, ∀ c ∈ yearText year, isStampChar c = true := by
    intro year
    unfold yearText
    split
    · exact List.forall_mem_cons.2 ⟨rfl, hpadded 4 year⟩
    · exact hpadded 4 year
  simp only [stampText, List.forall_mem_append, List.forall_mem_cons]
  exact ⟨⟨⟨⟨⟨⟨⟨hyear _, rfl, hpadded 2 _⟩, rfl, hpadded 2 _⟩, rfl, hpadded 2 _⟩, rfl, hpadded 2 _⟩, rfl, hpadded 2 _⟩,
    rfl, hpadded 3 _⟩, rfl, by simp⟩

/-- A text of an instant begins with a digit, or with a sign. -/
theorem stampText_head (k : Nat) : ∃ c cs, stampText k = c :: cs ∧ (c.isDigit = true ∨ c = '+') := by
  have hyear : ∀ year, ∃ c cs, yearText year = c :: cs ∧ (c.isDigit = true ∨ c = '+') := by
    intro year
    unfold yearText
    split
    · exact ⟨'+', _, rfl, .inr rfl⟩
    · have hne : padded 4 year ≠ [] := by simp [padded, Nat.toDigits_ne_nil]
      obtain ⟨c, cs, hcs⟩ := List.exists_cons_of_ne_nil hne
      exact ⟨c, cs, hcs, .inl (isDigit_of_mem_padded 4 year c (by simp [hcs]))⟩
  obtain ⟨c, cs, hcs, hc⟩ := hyear (Date.ofDays (epochDays + k / 86400000)).year
  exact ⟨c, _, by rw [stampText, hcs]; rfl, hc⟩

end RecordSource.Time

namespace RecordSource.Field

/-- A value without the token for the current instant. -/
def Tokenless (value : String) : Prop := ¬ nowToken.toList <:+: value.toList

theorem fillNow_of_tokenless {value : String} (h : Tokenless value) (now : String) : fillNow now value = value := by
  rw [fillNow, Text.replace, Text.replaceFrom_of_not_infix h, String.ofList_toList]

theorem tokenless_fillNow (now : Nat) (value : String) : Tokenless (fillNow (Time.stamp now) value) := by
  obtain ⟨k, hk⟩ : ∃ k, (Time.stamp now).toList = Time.stampText k := ⟨_, String.toList_ofList⟩
  obtain ⟨c, cs, hcs, hc⟩ := Time.stampText_head k
  obtain ⟨body, hbody⟩ : ∃ body, nowToken.toList = '$' :: body := by simp [nowToken]
  have hdollar : '$' ∉ c :: cs := by
    rw [← hcs]
    intro hmem
    exact absurd (Time.stampText_chars k '$' hmem) (by decide)
  have hfresh : c ∉ body := by
    have hclean : ∀ d ∈ nowToken.toList, d.isDigit = false ∧ d ≠ '+' := by simp [nowToken]
    intro hmem
    obtain ⟨hdigit, hsign⟩ := hclean c (by rw [hbody]; exact List.mem_cons_of_mem _ hmem)
    rcases hc with hc | hc
    · rw [hdigit] at hc
      cases hc
    · exact hsign hc
  rw [Tokenless, fillNow, String.toList_ofList, hk, hcs, hbody]
  exact Text.not_infix_replaceFrom hdollar hfresh 0 _

theorem infix_of_mem_valuesOf {value w : String} (h : w ∈ valuesOf value) : w.toList <:+: value.toList := by
  unfold valuesOf at h
  split at h
  · next c cs hinside =>
    obtain ⟨p, hp, rfl⟩ := List.mem_map.1 h
    rw [Text.inside?_eq_some_iff.1 hinside, String.toList_ofList]
    have hpiece := Text.infix_of_mem_pieces hp
    exact hpiece.trans ((List.prefix_append _ _).isInfix.trans (List.suffix_cons _ _).isInfix)
  · obtain rfl := List.mem_singleton.1 h
    exact List.infix_refl _

theorem Tokenless.of_mem_valuesOf {value w : String} (h : Tokenless value) (hw : w ∈ valuesOf value) : Tokenless w :=
  fun htoken => h (htoken.trans (infix_of_mem_valuesOf hw))

end RecordSource.Field
