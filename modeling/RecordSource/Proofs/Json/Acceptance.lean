import Mathlib.Data.List.Chain
import RecordSource.Proofs.Json.Reading

/-!
JSON is read: a text with no more arrays and objects open at once than a reading allows is read as the value that it
denotes. No token of such a text can be taken for the front of a longer one, since no number stands right behind
another.
-/
namespace RecordSource.Json

namespace Token
variable {cs rest : List Char}

/-! Strings. -/

theorem hexDigit?_of_isHexDigit {c : Char} {n : Nat} (h : IsHexDigit c n) : hexDigit? c = some n := by
  have hall : ∀ n < 16, hexDigit? n.digitChar = some n ∧ hexDigit? n.digitChar.toUpper = some n := by decide
  obtain ⟨hn, rfl | rfl⟩ := h
  · exact (hall n hn).1
  · exact (hall n hn).2

theorem unit?_of_isUnit {n : Nat} (h : IsUnit cs n) :
    ∃ ds, cs = '\\' :: 'u' :: ds ∧ ∀ rest, unit? (ds ++ rest) = some (n, rest) := by
  cases h with
  | @mk a b c d _ _ _ _ ha hb hc hd =>
    refine ⟨[a, b, c, d], rfl, fun rest => ?_⟩
    simp [unit?, hexDigit?_of_isHexDigit ha, hexDigit?_of_isHexDigit hb, hexDigit?_of_isHexDigit hc,
      hexDigit?_of_isHexDigit hd]

/-- A character is spelled by itself or by an escape. -/
theorem escape?_of_spells {c : Char} (h : Spells cs c) :
    (cs = [c] ∧ c ≠ '"' ∧ c ≠ '\\' ∧ 0x20 ≤ c.toNat) ∨
      ∃ ds, cs = '\\' :: ds ∧ ∀ rest, escape? (ds ++ rest) = some (c, rest) := by
  cases h with
  | plain h => exact .inl ⟨rfl, h⟩
  | @escape e _ h =>
    refine .inr ⟨[e], rfl, fun rest => ?_⟩
    simp only [escapes, List.mem_cons, List.not_mem_nil, or_false, Prod.mk.injEq] at h
    rcases h with ⟨rfl, rfl⟩ | ⟨rfl, rfl⟩ | ⟨rfl, rfl⟩ | ⟨rfl, rfl⟩ | ⟨rfl, rfl⟩ | ⟨rfl, rfl⟩ | ⟨rfl, rfl⟩ | ⟨rfl, rfl⟩
    all_goals rfl
  | unit h hhigh hlow =>
    obtain ⟨ds, rfl, hds⟩ := unit?_of_isUnit h
    refine .inr ⟨'u' :: ds, rfl, fun rest => ?_⟩
    rw [IsHighSurrogate] at hhigh
    rw [IsLowSurrogate] at hlow
    simp [escape?, unicode?, hds, hhigh, hlow]
  | pair hm hn hhigh hlow =>
    obtain ⟨ds, rfl, hds⟩ := unit?_of_isUnit hm
    obtain ⟨es, rfl, hes⟩ := unit?_of_isUnit hn
    refine .inr ⟨'u' :: (ds ++ '\\' :: 'u' :: es), by simp, fun rest => ?_⟩
    rw [IsHighSurrogate] at hhigh
    rw [IsLowSurrogate] at hlow
    simp [escape?, unicode?, hds, hes, hhigh, hlow]

theorem string?_of_spellsAll {text : List Char} (h : SpellsAll cs text) (acc rest : List Char) :
    string? acc (cs ++ '"' :: rest) = some (String.ofList (acc.reverse ++ text), rest) := by
  induction h generalizing acc with
  | nil => simp [string?]
  | cons h _ ih =>
    rcases escape?_of_spells h with ⟨rfl, hquote, hslash, hseen⟩ | ⟨es, rfl, hes⟩
    · rw [List.append_assoc, List.singleton_append, string?, if_neg (Nat.not_lt_of_le hseen), ih]
      · simp
      · exact hquote
      · exact hslash
    · rw [List.append_assoc, List.cons_append, string?]
      split
      · next heq =>
        rw [hes] at heq
        cases heq
        rw [ih]
        simp
      · next heq =>
        rw [hes] at heq
        cases heq

/-! All tokens. -/

def IsNumber (t : Token) : Prop := ∃ n, t = .number n

/-- Two tokens that may stand side by side. -/
def Apart (t u : Token) : Prop := ¬(t.IsNumber ∧ u.IsNumber)

theorem read?_of_isDigit {c : Char} (h : c.isDigit = true) :
    read? (c :: cs) = (number? false (c :: cs)).map fun (n, rest) => (number n, rest) := by
  rw [read?]
  all_goals
    intro _ heq
    cases heq
    exact absurd h (by decide)

theorem read?_of_isWritten {t : Token} (h : IsWritten round? cs t) (hrest : t.IsNumber → EndsNumber rest) :
    read? (cs ++ rest) = some (t, rest) := by
  cases h with
  | word h =>
    cases t with
    | bool b => cases b <;> cases h <;> rfl
    | number | string => cases h
    | _ =>
      cases h
      rfl
  | string h => simp [read?, string?_of_spellsAll h]
  | number h =>
    obtain ⟨negative, c, ds, rfl, hc, hread⟩ := number?_of_isNumeral h (hrest ⟨_, rfl⟩)
    rw [List.cons_append] at hread
    cases negative with
    | true => simp [signOf, read?, hread]
    | false =>
      rw [signOf, if_neg Bool.false_ne_true, List.nil_append, List.cons_append, read?_of_isDigit hc, hread]
      rfl

theorem not_isBlank_of_isDigit {c : Char} (h : c.isDigit = true) : isBlank c = false := by
  rw [Bool.eq_false_iff]
  intro hblank
  simp only [isBlank, Bool.or_eq_true, beq_iff_eq] at hblank
  rcases hblank with ((rfl | rfl) | rfl) | rfl <;> exact absurd h (by decide)

/-- A word begins with no blank, and with what belongs to a number only if it is one. -/
theorem front_of_isWritten {t : Token} (h : IsWritten round? cs t) :
    ∃ c ds, cs = c :: ds ∧ isBlank c = false ∧ (¬t.IsNumber → c.isDigit = false ∧ c ∉ ['.', 'e', 'E']) := by
  cases h with
  | word h =>
    cases t with
    | bool b => cases b <;> cases h <;> exact ⟨_, _, rfl, by decide, fun _ => by decide⟩
    | number | string => cases h
    | _ =>
      cases h
      exact ⟨_, _, rfl, by decide, fun _ => by decide⟩
  | string => exact ⟨_, _, rfl, by decide, fun _ => by decide⟩
  | number h =>
    obtain ⟨negative, c, ds, rfl, hc, -⟩ := number?_of_isNumeral h endsNumber_nil
    cases negative with
    | true => exact ⟨_, _, rfl, by decide, fun hnot => absurd ⟨_, rfl⟩ hnot⟩
    | false => exact ⟨_, _, rfl, not_isBlank_of_isDigit hc, fun hnot => absurd ⟨_, rfl⟩ hnot⟩

theorem endsNumber_of_isText {ts : List Token} (h : IsText round? cs ts) (hfirst : ∀ t ∈ ts.head?, ¬t.IsNumber) :
    EndsNumber cs := by
  cases h with
  | nil => simp [EndsNumber]
  | blank h =>
    intro c hc
    cases hc
    simp only [List.mem_cons, List.not_mem_nil, or_false] at h
    rcases h with rfl | rfl | rfl | rfl <;> decide
  | token h =>
    obtain ⟨c, ds, rfl, _, hc⟩ := front_of_isWritten h
    intro d hd
    cases hd
    exact hc (hfirst _ rfl)

theorem scan_of_isText {ts : List Token} (h : IsText round? cs ts) (hapart : ts.IsChain Apart) : scan cs = some ts := by
  induction h with
  | nil => simp [scan]
  | blank hc _ ih => rw [scan, if_pos (by simpa [isBlank, or_assoc] using hc), ih hapart]
  | @token cs ds t ts h more ih =>
    rw [List.isChain_cons] at hapart
    have hends : t.IsNumber → EndsNumber ds := fun ht =>
      endsNumber_of_isText more fun u hu hnumber => hapart.1 u hu ⟨ht, hnumber⟩
    have hread := read?_of_isWritten h hends
    obtain ⟨c, es, rfl, hblank, -⟩ := front_of_isWritten h
    rw [List.cons_append] at hread ⊢
    rw [scan, if_neg (by simp [hblank])]
    split
    · next heq =>
      rw [hread] at heq
      cases heq
      rw [ih hapart.2]
      rfl
    · next heq =>
      rw [hread] at heq
      cases heq

/-- No number stands right behind another. -/
theorem isChain_of_derives {n : Nat} {ts : List Token} {p : Phrase} (h : Derives n ts p) : ts.IsChain Apart := by
  induction h with
  | array _ ih | object _ ih => simp [List.isChain_cons, List.isChain_append, Apart, IsNumber, ih]
  | moreItems _ _ ih ihlast | moreFields _ _ ih ihlast =>
    simp [List.isChain_cons, List.isChain_append, Apart, IsNumber, ih, ihlast]
  | item _ ih => exact ih
  | field _ ih => simp [List.isChain_cons, Apart, IsNumber, ih]
  | _ => simp [List.isChain_cons, Apart, IsNumber]

end Token

namespace Reading
variable {n : Nat} {ts us : List Token} {outer : List Frame}

theorem run?_openArray (h : outer.length < maxDepth) (ts : List Token) :
    run? (value outer) (.openArray :: ts) = run? (valueOrClose outer) ts := by
  simp [run?_cons, next?, start?, h]

theorem run?_openObject (h : outer.length < maxDepth) (ts : List Token) :
    run? (value outer) (.openObject :: ts) = run? (keyOrClose outer) ts := by
  simp [run?_cons, next?, start?, h]

/-- A value does not begin as an array ends. -/
theorem run?_valueOrClose {v : Json} (h : Derives n ts (.value v)) (us : List Token) :
    run? (valueOrClose outer) (ts ++ us) = run? (value (.array [] :: outer)) (ts ++ us) := by
  cases h <;> rfl

/-- What the tokens of a phrase do to a reading that waits for it. -/
def Takes (n : Nat) (ts : List Token) (outer : List Frame) (us : List Token) : Phrase → Prop
  | .value v => outer.length + n ≤ maxDepth → run? (value outer) (ts ++ us) = run? (finish v outer) us
  | .items vs => outer.length + 1 + n ≤ maxDepth →
    run? (valueOrClose outer) (ts ++ us) = run? (separator (.array vs.reverse) outer) us
  | .fields fs => outer.length + 1 + n ≤ maxDepth → ∃ k,
    run? (keyOrClose outer) (ts ++ us) = run? (separator (.object fs.reverse k) outer) us

theorem takes_of_derives {p : Phrase} (h : Derives n ts p) (outer : List Frame) (us : List Token) :
    Takes n ts outer us p := by
  induction h generalizing outer us with
  | null | bool | number | string => exact fun _ => rfl
  | emptyArray =>
    intro hroom
    exact run?_openArray (by omega) _
  | emptyObject =>
    intro hroom
    exact run?_openObject (by omega) _
  | @array n ts vs _ ih =>
    intro hroom
    have hitems := ih outer (.closeArray :: us) (by omega)
    rw [List.cons_append, List.append_assoc, run?_openArray (by omega), List.singleton_append, hitems]
    simp [run?_cons, next?]
  | @object n ts fs _ ih =>
    intro hroom
    obtain ⟨k, hfields⟩ := ih outer (.closeObject :: us) (by omega)
    rw [List.cons_append, List.append_assoc, run?_openObject (by omega), List.singleton_append, hfields]
    simp [run?_cons, next?]
  | item h ih =>
    intro hroom
    rw [run?_valueOrClose h]
    exact ih (.array [] :: outer) us hroom
  | @moreItems n ts us' vs v _ _ ih ihlast =>
    intro hroom
    have hlast := ihlast (.array vs.reverse :: outer) us hroom
    rw [List.append_assoc, ih outer _ hroom, List.reverse_concat]
    exact hlast
  | @field n k ts v _ ih =>
    intro hroom
    exact ⟨k, ih (.object [] k :: outer) us hroom⟩
  | @moreFields n ts us' fs k v _ _ ih ihlast =>
    intro hroom
    obtain ⟨k', hfields⟩ := ih outer (.comma :: .string k :: .colon :: us' ++ us) hroom
    refine ⟨k, ?_⟩
    rw [List.append_assoc, hfields, List.reverse_concat]
    exact ihlast (.object fs.reverse k :: outer) us hroom

end Reading

/-- The texts that are read are those that denote a value, with up to 127 arrays and objects open at once. -/
theorem parse?_eq_some_iff {text : String} {v : Json} : parse? text = some v ↔ Denotes Token.round? 127 text v := by
  constructor
  · exact denotes_of_parse?
  · rintro ⟨ts, htext, hderives⟩
    have hrun : Reading.run? (.value []) (ts ++ []) = some v :=
      Reading.takes_of_derives hderives [] [] (by simp [Reading.maxDepth])
    rw [parse?, Token.scan_of_isText htext (Token.isChain_of_derives hderives), ← List.append_nil ts]
    exact hrun

example :
    let nested (n : Nat) := List.replicate n Token.openArray ++ List.replicate n Token.closeArray
    (Reading.run? (.value []) (nested 127)).isSome = true ∧
      (Reading.run? (.value []) (nested 128)).isSome = false := by decide +kernel

end RecordSource.Json
