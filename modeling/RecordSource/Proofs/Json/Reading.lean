import RecordSource.Json.Read
import RecordSource.Proofs.Json.Numeral

/-!
What is read as JSON is JSON: a value that comes of a text is one that the text denotes. First the tokens, then the
readings, which know of the text before them what is open and what it holds.
-/
namespace RecordSource.Json

namespace Token
variable {cs rest : List Char}

/-! Strings. -/

theorem toNat_lt_of_hexDigit? {c : Char} {n : Nat} (h : hexDigit? c = some n) : c.toNat < 103 := by
  unfold hexDigit? at h
  split at h
  · next hc =>
    have := (Text.toNat_of_isDigit hc).2
    omega
  · split at h
    · next hc =>
      have : c.toNat ≤ 'f'.toNat := hc.2
      have : 'f'.toNat = 102 := rfl
      omega
    · split at h
      · next hc =>
        have : c.toNat ≤ 'F'.toNat := hc.2
        have : 'F'.toNat = 70 := rfl
        omega
      · cases h

theorem isHexDigit_of_hexDigit? {c : Char} {n : Nat} (h : hexDigit? c = some n) : IsHexDigit c n := by
  have hall : ∀ k < 103, ∀ n ∈ hexDigit? (Char.ofNat k), IsHexDigit (Char.ofNat k) n := by decide
  simpa using hall c.toNat (toNat_lt_of_hexDigit? h) n (by simpa using h)

theorem unit?_spec {n : Nat} (h : unit? cs = some (n, rest)) :
    ∃ ds, cs = ds ++ rest ∧ IsUnit ('\\' :: 'u' :: ds) n := by
  unfold unit? at h
  split at h
  · next a b c d cs =>
    simp only [Option.bind_eq_bind, Option.bind_eq_some_iff, Option.pure_def, Option.some.injEq, Prod.mk.injEq] at h
    obtain ⟨i, hi, j, hj, k, hk, l, hl, rfl, rfl⟩ := h
    exact ⟨[a, b, c, d], rfl, .mk (isHexDigit_of_hexDigit? hi) (isHexDigit_of_hexDigit? hj) (isHexDigit_of_hexDigit? hk)
      (isHexDigit_of_hexDigit? hl)⟩
  · cases h

theorem unicode?_spec {c : Char} (h : unicode? cs = some (c, rest)) :
    ∃ ds, cs = ds ++ rest ∧ Spells ('\\' :: 'u' :: ds) c := by
  unfold unicode? at h
  simp only [Option.bind_eq_bind, Option.bind_eq_some_iff, Prod.exists] at h
  obtain ⟨high, mid, hm, h⟩ := h
  obtain ⟨ds, rfl, hunit⟩ := unit?_spec hm
  split at h
  · next hhigh =>
    split at h
    · simp only [Option.bind_eq_some_iff, Prod.exists] at h
      obtain ⟨low, last, hl, h⟩ := h
      obtain ⟨es, rfl, hunit'⟩ := unit?_spec hl
      split at h
      · next hlow =>
        simp only [Option.pure_def, Option.some.injEq, Prod.mk.injEq] at h
        obtain ⟨rfl, rfl⟩ := h
        exact ⟨ds ++ '\\' :: 'u' :: es, by simp, .pair hunit hunit' hhigh hlow⟩
      · cases h
    · cases h
  · next hhigh =>
    split at h
    · cases h
    · next hlow =>
      simp only [Option.pure_def, Option.some.injEq, Prod.mk.injEq] at h
      obtain ⟨rfl, rfl⟩ := h
      exact ⟨ds, rfl, .unit hunit hhigh hlow⟩

theorem escape?_spec {c : Char} (h : escape? cs = some (c, rest)) :
    ∃ ds, cs = ds ++ rest ∧ Spells ('\\' :: ds) c := by
  unfold escape? at h
  split at h
  case h_9 =>
    obtain ⟨ds, rfl, hspells⟩ := unicode?_spec h
    exact ⟨'u' :: ds, rfl, hspells⟩
  case h_10 => cases h
  all_goals
    simp only [Option.some.injEq, Prod.mk.injEq] at h
    obtain ⟨rfl, rfl⟩ := h
    exact ⟨[_], rfl, .escape (by decide)⟩

theorem string?_spec {acc : List Char} {s : String} (h : string? acc cs = some (s, rest)) :
    ∃ ds text, cs = ds ++ '"' :: rest ∧ SpellsAll ds text ∧ s = String.ofList (acc.reverse ++ text) := by
  fun_induction string? acc cs with
  | case1 => cases h
  | case2 acc cs =>
    simp only [Option.some.injEq, Prod.mk.injEq] at h
    obtain ⟨rfl, rfl⟩ := h
    exact ⟨[], [], rfl, .nil, by simp⟩
  | case3 acc cs c mid he ih =>
    obtain ⟨ds, text, rfl, hall, hs⟩ := ih h
    obtain ⟨es, rfl, hspells⟩ := escape?_spec he
    exact ⟨'\\' :: es ++ ds, c :: text, by simp, .cons hspells hall, by simpa using hs⟩
  | case4 => cases h
  | case5 => cases h
  | case6 acc c cs hquote hslash hseen ih =>
    obtain ⟨ds, text, rfl, hall, hs⟩ := ih h
    exact ⟨c :: ds, c :: text, rfl, .cons (.plain ⟨hquote, hslash, Nat.le_of_not_lt hseen⟩) hall, by simpa using hs⟩

/-! All tokens. -/

theorem read?_spec {t : Token} (h : read? cs = some (t, rest)) :
    ∃ word, cs = word ++ rest ∧ IsWritten round? word t := by
  unfold read? at h
  split at h
  case h_10 =>
    obtain ⟨⟨s, _⟩, hs, heq⟩ := Option.map_eq_some_iff.1 h
    cases heq
    obtain ⟨ds, text, rfl, hall, rfl⟩ := string?_spec hs
    exact ⟨'"' :: (ds ++ ['"']), by simp, .string hall⟩
  case h_11 =>
    obtain ⟨⟨n, _⟩, hn, heq⟩ := Option.map_eq_some_iff.1 h
    cases heq
    obtain ⟨ds, rfl, hnum⟩ := isNumeral_of_number? hn
    exact ⟨'-' :: ds, rfl, .number hnum⟩
  case h_12 =>
    obtain ⟨⟨n, _⟩, hn, heq⟩ := Option.map_eq_some_iff.1 h
    cases heq
    obtain ⟨ds, rfl, hnum⟩ := isNumeral_of_number? hn
    exact ⟨ds, rfl, .number hnum⟩
  all_goals
    cases h
    refine ⟨_, ?_, .word rfl⟩
    rfl

theorem isText_of_scan {ts : List Token} (h : scan cs = some ts) : IsText round? cs ts := by
  fun_induction scan cs generalizing ts with
  | case1 =>
    cases h
    exact .nil
  | case2 c cs hblank ih => exact .blank (by simpa [isBlank, or_assoc] using hblank) (ih h)
  | case3 c cs _ t rest hread ih =>
    obtain ⟨us, hus, rfl⟩ := Option.map_eq_some_iff.1 h
    obtain ⟨word, hword, hwritten⟩ := read?_spec hread
    rw [hword]
    exact .token hwritten (ih hus)
  | case4 => cases h

end Token

theorem Derives.mono {m n : Nat} {ts : List Token} {p : Phrase} (h : Derives m ts p) (hmn : m ≤ n) :
    Derives n ts p := by
  induction h generalizing n with
  | null => exact .null
  | bool => exact .bool
  | number => exact .number
  | string => exact .string
  | emptyArray | emptyObject =>
    cases n with
    | zero => exact absurd hmn (Nat.not_succ_le_zero _)
    | succ n => constructor
  | array _ ih | object _ ih =>
    cases n with
    | zero => exact absurd hmn (Nat.not_succ_le_zero _)
    | succ n =>
      constructor
      exact ih (Nat.le_of_succ_le_succ hmn)
  | item _ ih => exact .item (ih hmn)
  | moreItems _ _ ih ihlast => exact .moreItems (ih hmn) (ihlast hmn)
  | field _ ih => exact .field (ih hmn)
  | moreFields _ _ ih ihlast => exact .moreFields (ih hmn) (ihlast hmn)

namespace Reading

/-- The frames that are open after a row of tokens, a value still to come in the last. -/
inductive Opens : List Token → List Frame → Prop
  | nil : Opens [] []
  | array {ts outer} (h : Opens ts outer) (hroom : outer.length < maxDepth) :
    Opens (ts ++ [.openArray]) (.array [] :: outer)
  | items {n ts us vs outer} (h : Opens ts outer) (hitems : Derives n us (.items vs))
    (hroom : outer.length + 1 + n ≤ maxDepth) :
    Opens (ts ++ .openArray :: (us ++ [.comma])) (.array vs.reverse :: outer)
  | object {ts k outer} (h : Opens ts outer) (hroom : outer.length < maxDepth) :
    Opens (ts ++ [.openObject, .string k, .colon]) (.object [] k :: outer)
  | fields {n ts us fs k outer} (h : Opens ts outer) (hfields : Derives n us (.fields fs))
    (hroom : outer.length + 1 + n ≤ maxDepth) :
    Opens (ts ++ .openObject :: (us ++ [.comma, .string k, .colon])) (.object fs.reverse k :: outer)

/-- A reading after the tokens that led to it. -/
inductive Reads : List Token → Reading → Prop
  | value {ts outer} (h : Opens ts outer) : Reads ts (.value outer)
  | valueOrClose {ts outer} (h : Opens ts outer) (hroom : outer.length < maxDepth) :
    Reads (ts ++ [.openArray]) (.valueOrClose outer)
  | keyOrClose {ts outer} (h : Opens ts outer) (hroom : outer.length < maxDepth) :
    Reads (ts ++ [.openObject]) (.keyOrClose outer)
  | key {n ts us fs outer} (h : Opens ts outer) (hfields : Derives n us (.fields fs))
    (hroom : outer.length + 1 + n ≤ maxDepth) :
    Reads (ts ++ .openObject :: (us ++ [.comma])) (.key fs.reverse outer)
  | firstColon {ts k outer} (h : Opens ts outer) (hroom : outer.length < maxDepth) :
    Reads (ts ++ [.openObject, .string k]) (.colon [] k outer)
  | colon {n ts us fs k outer} (h : Opens ts outer) (hfields : Derives n us (.fields fs))
    (hroom : outer.length + 1 + n ≤ maxDepth) :
    Reads (ts ++ .openObject :: (us ++ [.comma, .string k])) (.colon fs.reverse k outer)
  | items {n ts us vs outer} (h : Opens ts outer) (hitems : Derives n us (.items vs))
    (hroom : outer.length + 1 + n ≤ maxDepth) : Reads (ts ++ .openArray :: us) (.separator (.array vs.reverse) outer)
  | fields {n ts us fs k outer} (h : Opens ts outer) (hfields : Derives n us (.fields fs))
    (hroom : outer.length + 1 + n ≤ maxDepth) :
    Reads (ts ++ .openObject :: us) (.separator (.object fs.reverse k) outer)
  | finished {ts v} (h : Derives maxDepth ts (.value v)) : Reads ts (.finished v)

variable {n : Nat} {ts us : List Token} {outer : List Frame} {t : Token} {r r' : Reading} {v : Json}

theorem Opens.length_le (h : Opens ts outer) : outer.length ≤ maxDepth := by
  cases h <;> simp only [List.length_cons, List.length_nil] <;> omega

/-- A value that is complete stands where it belongs. -/
theorem Opens.finish (h : Opens ts outer) (hv : Derives n us (.value v)) (hroom : outer.length + n ≤ maxDepth) :
    Reads (ts ++ us) (finish v outer) := by
  cases h with
  | nil => exact .finished (hv.mono (by simpa using hroom))
  | array h =>
    rw [List.length_cons] at hroom
    simpa [Reading.finish] using Reads.items h (.item hv) hroom
  | items h hitems hroom' =>
    rw [List.length_cons] at hroom
    have hmore := (hitems.mono (Nat.le_max_left _ n)).moreItems (hv.mono (Nat.le_max_right _ n))
    simpa [Reading.finish] using Reads.items h hmore (by omega)
  | @object _ k _ h =>
    rw [List.length_cons] at hroom
    simpa [Reading.finish] using Reads.fields (k := k) h (.field hv) hroom
  | @fields _ _ _ _ k _ h hfields hroom' =>
    rw [List.length_cons] at hroom
    have hmore := (hfields.mono (Nat.le_max_left _ n)).moreFields (k := k) (hv.mono (Nat.le_max_right _ n))
    simpa [Reading.finish] using Reads.fields (k := k) h hmore (by omega)

theorem Opens.start (h : Opens ts outer) (hr : start? outer t = some r) : Reads (ts ++ [t]) r := by
  cases t with
  | openArray =>
    rw [start?, Option.ite_none_right_eq_some] at hr
    cases hr.2
    exact .valueOrClose h hr.1
  | openObject =>
    rw [start?, Option.ite_none_right_eq_some] at hr
    cases hr.2
    exact .keyOrClose h hr.1
  | null | bool | number | string =>
    cases hr
    exact h.finish (n := 0) (by constructor) h.length_le
  | _ => cases hr

/-- A token carries a reading on. -/
theorem Reads.next (h : Reads ts r) (hr : r.next? t = some r') : Reads (ts ++ [t]) r' := by
  cases h with
  | value h => exact h.start hr
  | @valueOrClose ts _ h hroom =>
    cases t with
    | closeArray =>
      cases hr
      simpa using h.finish (n := 1) .emptyArray hroom
    | _ => exact (h.array hroom).start hr
  | @keyOrClose ts _ h hroom =>
    cases t with
    | closeObject =>
      cases hr
      simpa using h.finish (n := 1) .emptyObject hroom
    | string k =>
      cases hr
      simpa using Reads.firstColon (k := k) h hroom
    | _ => cases hr
  | key h hfields hroom =>
    cases t with
    | string k =>
      cases hr
      simpa using Reads.colon (k := k) h hfields hroom
    | _ => cases hr
  | firstColon h hroom =>
    cases t with
    | colon =>
      cases hr
      simpa using Reads.value (h.object hroom)
    | _ => cases hr
  | colon h hfields hroom =>
    cases t with
    | colon =>
      cases hr
      simpa using Reads.value (h.fields hfields hroom)
    | _ => cases hr
  | items h hitems hroom =>
    cases t with
    | comma =>
      cases hr
      simpa using Reads.value (h.items hitems hroom)
    | closeArray =>
      cases hr
      simpa using h.finish (.array hitems) (by omega)
    | _ => cases hr
  | fields h hfields hroom =>
    cases t with
    | comma =>
      cases hr
      simpa using Reads.key h hfields hroom
    | closeObject =>
      cases hr
      simpa using h.finish (.object hfields) (by omega)
    | _ => cases hr
  | finished h => cases hr

/-- So does a row of tokens, to the end. -/
theorem Reads.run (h : Reads ts r) (hr : r.run? us = some v) : Derives maxDepth (ts ++ us) (.value v) := by
  induction us generalizing ts r with
  | nil =>
    cases h with
    | finished h =>
      cases hr
      rwa [List.append_nil]
    | _ => cases hr
  | cons t us ih =>
    rw [run?_cons, Option.bind_eq_some_iff] at hr
    obtain ⟨r', hnext, hrun⟩ := hr
    rw [List.append_cons]
    exact ih (h.next hnext) hrun

end Reading

/-- What is read is what the text denotes. -/
theorem denotes_of_parse? {text : String} {v : Json} (h : parse? text = some v) : Denotes Token.round? 127 text v := by
  obtain ⟨ts, hts, hrun⟩ := Option.bind_eq_some_iff.1 h
  exact ⟨ts, Token.isText_of_scan hts, Reading.Reads.run (.value .nil) hrun⟩

end RecordSource.Json
