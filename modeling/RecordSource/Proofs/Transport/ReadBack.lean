import RecordSource.Proofs.Text.Numeral
import RecordSource.Proofs.Text.Trimming
import RecordSource.Transport.Guidance

/-!
A failure that is known by its text alone. The text of a refused call tells its status and, but for the blanks around
it, what the server said, even if the server's words look like such a text themselves; and what is told about the text
differs from what is told about the failure in these blanks only.
-/
namespace RecordSource.Transport

theorem Failure.message_status (code : Nat) (body : String) : (status code body).message =
    "request failed with status code: " ++ toString code ++ ". Error message: " ++ body := rfl

/-- The text of a refused call with its two marks. -/
theorem Failure.toList_message_status (code : Nat) (body : String) :
    (status code body).message.toList =
      "request failed with ".toList ++ (Report.statusMark ++ ' ' :: (Nat.toDigits 10 code ++
        (". ".toList ++ (Report.messageMark ++ ' ' :: body.toList)))) := by
  have hstatus : "request failed with status code: ".toList =
      "request failed with ".toList ++ Report.statusMark ++ [' '] := by decide
  have hmessage : ". Error message: ".toList = ". ".toList ++ Report.messageMark ++ [' '] := by decide
  rw [message_status, String.toList_append, String.toList_append, String.toList_append, hstatus, hmessage,
    Nat.toString_eq_repr, Nat.toList_repr]
  simp only [List.append_assoc, List.cons_append, List.nil_append]

namespace Report

theorem length_toDigits {code : Nat} (h : 100 ≤ code ∧ code ≤ 999) : (Nat.toDigits 10 code).length = 3 := by
  have hle : (Nat.toDigits 10 code).length ≤ 3 := (Nat.length_toDigits_le_iff (by decide) (by decide)).2 (by omega)
  have hlt : ¬(Nat.toDigits 10 code).length ≤ 2 := by
    rw [Nat.length_toDigits_le_iff (by decide) (by decide)]
    omega
  omega

theorem threeDigits?_toDigits {code : Nat} (h : 100 ≤ code ∧ code ≤ 999) (rest : List Char) :
    threeDigits? (' ' :: (Nat.toDigits 10 code ++ rest)) = some (Nat.toDigits 10 code) := by
  have hdigits : ∀ c ∈ Nat.toDigits 10 code, c.isDigit = true := fun c =>
    Nat.isDigit_of_mem_toDigits (by decide) (by decide)
  obtain ⟨a, b, c, habc⟩ := List.length_eq_three.1 (length_toDigits h)
  rw [habc] at hdigits ⊢
  simp only [List.forall_mem_cons] at hdigits
  obtain ⟨ha, hb, hc, _⟩ := hdigits
  have hblank : Text.isBlank ' ' = true := rfl
  simp [threeDigits?, hblank, Text.not_blank_of_isDigit ha, Text.isDecimal_of_isDigit, ha, hb, hc]

/-- The words before the status do not hide its mark. -/
theorem statusDigits?_message {code : Nat} (h : 100 ≤ code ∧ code ≤ 999) (body : String) :
    statusDigits? (Failure.status code body).message.toList = some (Nat.toDigits 10 code) := by
  obtain ⟨mark, hmark⟩ : ∃ mark, statusMark = 's' :: 't' :: 'a' :: mark := ⟨_, rfl⟩
  have hlead : "request failed with ".toList = "reque".toList ++ 's' :: 't' :: " failed with ".toList := by decide
  have hst : ∀ cs, Text.after? statusMark ('s' :: 't' :: (" failed with ".toList ++ cs)) = none := by
    intro cs
    simp [hmark, Text.after?]
  have hskip : ∀ cs, Text.firstAfter? statusMark threeDigits? ("request failed with ".toList ++ cs) =
      Text.firstAfter? statusMark threeDigits? cs := by
    intro cs
    rw [hlead, List.append_assoc, List.cons_append, List.cons_append, hmark,
      Text.firstAfter?_append_of_notMem (by decide), ← hmark, Text.firstAfter?_cons_of_none (hst cs), hmark]
    exact Text.firstAfter?_append_of_notMem (by decide) cs
  rw [Failure.toList_message_status, statusDigits?, hskip]
  exact Text.firstAfter?_mark_append (threeDigits?_toDigits h _)

/-- The message mark begins with a letter that does not stand before it. -/
theorem messagePart?_message (code : Nat) (body : String) :
    messagePart? (Failure.status code body).message.toList = some (body.toList.dropWhile Text.isBlank) := by
  obtain ⟨mark, hmark⟩ : ∃ mark, messageMark = 'E' :: mark := ⟨_, rfl⟩
  have hdigits : 'E' ∉ Nat.toDigits 10 code := by
    intro hE
    exact absurd (Nat.isDigit_of_mem_toDigits (by decide) (by decide) hE) (by decide)
  have hbefore : 'E' ∉ "request failed with ".toList ++ (statusMark ++ ' ' :: (Nat.toDigits 10 code ++ ". ".toList)) := by
    simp only [List.mem_append, List.mem_cons, not_or]
    exact ⟨by decide, by decide, by decide, hdigits, by decide⟩
  have htext : (Failure.status code body).message.toList =
      ("request failed with ".toList ++ (statusMark ++ ' ' :: (Nat.toDigits 10 code ++ ". ".toList))) ++
        (messageMark ++ ' ' :: body.toList) := by
    simp only [Failure.toList_message_status, List.append_assoc, List.cons_append]
  rw [messagePart?, htext, hmark, Text.firstAfter?_append_of_notMem hbefore]
  exact Text.firstAfter?_mark_append rfl

theorem read?_message {code : Nat} (h : 100 ≤ code ∧ code ≤ 999) (body : String) :
    read? (Failure.status code body).message = some ⟨code, String.ofList (Text.trim body.toList)⟩ := by
  rw [read?, statusDigits?_message h, messagePart?_message, Option.bind_some, Text.asciiNumber?_toDigits,
    Option.map_some, Option.getD_some, Text.trim_dropWhile_isBlank]

end Report

namespace Guidance

/-- There are words for a status that do not depend on what the server said. -/
def HasWords (g : Guidance) (code : Nat) : Prop :=
  code ∈ g.extra.map Prod.fst ∨ code = 404 ∨ code = 429 ∨ code = 504

variable {g : Guidance} {code : Nat}

theorem lookup_eq_none_iff : g.extra.lookup code = none ↔ code ∉ g.extra.map Prod.fst := by
  rw [List.lookup_eq_none_iff, List.mem_map]
  constructor
  · rintro h ⟨p, hp, rfl⟩
    simpa using h p hp
  · intro h p hp
    exact bne_iff_ne.2 fun heq => h ⟨p, hp, heq.symm⟩

theorem messageFor_of_hasWords (h : g.HasWords code) (m m' : String) :
    g.messageFor ⟨code, m⟩ = g.messageFor ⟨code, m'⟩ := by
  unfold messageFor
  cases hextra : g.extra.lookup code with
  | some text => rfl
  | none =>
    rcases h.resolve_left (lookup_eq_none_iff.1 hextra) with h | h | h <;>
      simp only [h, Nat.reduceEqDiff, if_true, if_false]

theorem messageFor_of_not_hasWords (h : ¬g.HasWords code) (m : String) : g.messageFor ⟨code, m⟩ =
    "The query failed due to the following error: (status " ++ toString code ++ ") " ++ m ++ "." := by
  rw [HasWords, not_or, not_or, not_or] at h
  obtain ⟨hextra, h404, h429, h504⟩ := h
  simp only [messageFor, lookup_eq_none_iff.2 hextra, if_neg h404, if_neg h429, if_neg h504]

theorem messageFor_eq_iff {m m' : String} :
    g.messageFor ⟨code, m⟩ = g.messageFor ⟨code, m'⟩ ↔ g.HasWords code ∨ m = m' := by
  by_cases hwords : g.HasWords code
  · exact iff_of_true (messageFor_of_hasWords hwords m m') (.inl hwords)
  · rw [messageFor_of_not_hasWords hwords, messageFor_of_not_hasWords hwords, String.append_left_inj,
      String.append_right_inj, or_iff_right hwords]

end Guidance

/-- Whatever a server said when it refused a call with a status of three digits, the text of this failure is read back
as the status and what the server said without the blanks around it. So what a domain tells of the text has the status
that it tells of the failure, and it is told in the same words exactly if there are words for the status alone or no
blanks stand around what the server said. -/
theorem Failure.message_reads_back {code : Nat} (h : 100 ≤ code ∧ code ≤ 999) (body : String) :
    let text := (status code body).message
    (∃ said, Text.Trims body.toList said ∧ Report.read? text = some ⟨code, String.ofList said⟩) ∧
    ∀ g : Guidance, (g.diagnoseText text).code? = (g.diagnose (status code body)).code? ∧
      ((g.diagnoseText text).message = (g.diagnose (status code body)).message ↔
        g.HasWords code ∨ Text.IsTrimmed body.toList) := by
  intro text
  have hread : Report.read? text = some ⟨code, String.ofList (Text.trim body.toList)⟩ := Report.read?_message h body
  refine ⟨⟨_, Text.trims_trim body.toList, hread⟩, fun g => ?_⟩
  have htext : g.diagnoseText text = g.diagnoseReport ⟨code, String.ofList (Text.trim body.toList)⟩ := by
    rw [Guidance.diagnoseText, hread]
  rw [htext]
  refine ⟨rfl, ?_⟩
  have hbody : String.ofList (Text.trim body.toList) = body ↔ Text.trim body.toList = body.toList := by
    rw [← String.toList_inj, String.toList_ofList]
  rw [← Text.trim_eq_self_iff, ← hbody]
  exact Guidance.messageFor_eq_iff

/-- Two digits are no status, and then a status that the server speaks of counts. -/
example : Report.read? (Failure.status 99 "status code: 404").message = some ⟨404, "status code: 404"⟩ := by decide

/-- What the server said begins and ends like a text of such a failure itself. -/
theorem Failure.message_reads_back_text_in_text :
    let text := (status 500 "status code: 404. Error message: gone\n").message
    (100 ≤ 500 ∧ 500 ≤ 999) ∧
    (∃ said, Text.Trims "status code: 404. Error message: gone\n".toList said ∧
      Report.read? text = some ⟨500, String.ofList said⟩) ∧
    ∀ g : Guidance,
      (g.diagnoseText text).code? = (g.diagnose (status 500 "status code: 404. Error message: gone\n")).code? ∧
      ((g.diagnoseText text).message =
          (g.diagnose (status 500 "status code: 404. Error message: gone\n")).message ↔
        g.HasWords 500 ∨ Text.IsTrimmed "status code: 404. Error message: gone\n".toList) :=
  ⟨by decide, message_reads_back (by decide) _⟩

end RecordSource.Transport
