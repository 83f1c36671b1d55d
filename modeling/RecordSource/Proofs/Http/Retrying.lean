import Mathlib.Algebra.Group.Nat.Defs
import Mathlib.Order.MinMax
import Mathlib.Order.Monotone.Basic
import RecordSource.Http.Exchange
import RecordSource.Http.OutOfReach
import RecordSource.Proofs.Json.Acceptance

/-!
Asking again. Whatever a server answers, a call goes on exactly to the first answer that is no refusal for too many
requests, or to the last one that the settings allow, and this answer decides it; the waits before the retries double
until they are as long as they can be. What sends the messages and reads the bodies may be
anything that keeps to JSON.
-/
namespace RecordSource.Http
variable {σ : Type}

namespace Host

/-- The answer of the given number, counted from zero, to a message that is sent again and again. -/
def answer (host : Host σ) (m : Message) : σ → Nat → Reply
  | state, 0 => (host.send state m).1
  | state, n + 1 => answer host m (host.send state m).2 n

/-- The state of a server that was sent a message so many times. -/
def after (host : Host σ) (m : Message) : σ → Nat → σ
  | state, 0 => state
  | state, n + 1 => after host m (host.send state m).2 n

/-- What is relied on of a host: it reads exactly the bodies that are JSON, with up to 127 arrays and objects open at
once and numbers that it can round, and tells a body that it cannot read from an answer that is late. How it rounds is
its own. -/
structure Documented (host : Host σ) (round : List Char → Option Number.Binary64) : Prop where
  refuses : ∀ m t, host.unsendable? m = some t → t.isTimeout = false ∧ t.isDecode = false
  reads : ∀ body v, host.json body = .ok v ↔ Json.Denotes round 127 body v
  tells : ∀ body t, host.json body = .error t → t.isTimeout = false ∧ t.isDecode = true

theorem readBody_eq_ok_iff {body : String} {v : Json} : readBody body = .ok v ↔ Json.parse? body = some v := by
  unfold readBody
  cases Json.parse? body <;> simp

/-- Bodies may be read as they are where there is no network. -/
theorem documented_of_readBody {host : Host σ} (hsends : ∀ m, host.unsendable? m = none)
    (hjson : host.json = readBody) : host.Documented Json.Token.round? where
  refuses m t ht := by
    rw [hsends] at ht
    cases ht
  reads body v := by rw [hjson, readBody_eq_ok_iff, Json.parse?_eq_some_iff]
  tells body t ht := by
    rw [hjson, readBody] at ht
    split at ht
    · cases ht
    · cases ht
      exact ⟨rfl, rfl⟩

theorem documented_outOfReach : (outOfReach : Host σ).Documented Json.Token.round? :=
  documented_of_readBody (fun _ => rfl) rfl

/-- A host that takes its answers from a list. -/
def script : Host (List Reply) where
  unsendable? _ := none
  send replies _ := (replies.headD (.failed { text := "no answer" }), replies.tail)
  json := readBody

end Host

/-- Refused for too many requests. -/
def Reply.IsRefusal (reply : Reply) : Prop := ∃ body, reply = .response 429 body

/-- The number of the answer that decides: the first that is no refusal, or the last one there can be. -/
structure IsDecisive (answers : Nat → Reply) (retries k : Nat) : Prop where
  le : k ≤ retries
  refused : ∀ i < k, (answers i).IsRefusal
  answered : k < retries → ¬(answers k).IsRefusal

namespace IsDecisive
variable {answers : Nat → Reply} {retries k : Nat}

theorem zero (h : ¬(answers 0).IsRefusal ∨ retries = 0) : IsDecisive answers retries 0 where
  le := Nat.zero_le _
  refused _ hi := absurd hi (Nat.not_lt_zero _)
  answered hlt := h.elim id fun hzero => absurd hlt (by omega)

theorem succ (hfirst : (answers 0).IsRefusal) (h : IsDecisive (fun i => answers (i + 1)) retries k) :
    IsDecisive answers (retries + 1) (k + 1) where
  le := Nat.succ_le_succ h.le
  refused
    | 0, _ => hfirst
    | i + 1, hi => h.refused i (Nat.lt_of_succ_lt_succ hi)
  answered hlt := h.answered (Nat.lt_of_succ_lt_succ hlt)

theorem not_lt {k' : Nat} (h : IsDecisive answers retries k) (h' : IsDecisive answers retries k') : ¬k < k' := by
  intro hlt
  exact h.answered (Nat.lt_of_lt_of_le hlt h'.le) (h'.refused k hlt)

theorem unique {k' : Nat} (h : IsDecisive answers retries k) (h' : IsDecisive answers retries k') : k' = k :=
  Nat.le_antisymm (Nat.le_of_not_lt (h.not_lt h')) (Nat.le_of_not_lt (h'.not_lt h))

end IsDecisive

/-- What trouble comes to. -/
inductive Trouble.Told (t : Trouble) : Transport.Failure → Prop
  | timedOut (h : t.isTimeout = true) : Told t .timedOut
  | undecodable (h : t.isTimeout = false ∧ t.isDecode = true) : Told t (.undecodable t.text)
  | network (h : t.isTimeout = false ∧ t.isDecode = false) : Told t (.network t.text)

def IsSuccess (status : Nat) : Prop := 200 ≤ status ∧ status < 300

instance (status : Nat) : Decidable (IsSuccess status) := inferInstanceAs (Decidable (_ ∧ _))

/-- What an answer that decides a call comes to: the JSON of a success, or why there is none. -/
inductive Means (host : Host σ) (round : List Char → Option Number.Binary64) :
    Reply → Except Transport.Failure Json → Prop
  | value {status : Nat} {body : String} {v : Json} (h : IsSuccess status) (hbody : Json.Denotes round 127 body v) :
    Means host round (.response status (.ok body)) (.ok v)
  | undecodable {status : Nat} {body : String} {t : Trouble} (h : IsSuccess status)
    (hbody : ∀ v, ¬Json.Denotes round 127 body v) (ht : host.json body = .error t) :
    Means host round (.response status (.ok body)) (.error (.undecodable t.text))
  | status {status : Nat} {body : String} (h : ¬IsSuccess status) :
    Means host round (.response status (.ok body)) (.error (.status status body))
  | brokenOff {status : Nat} {t : Trouble} {f : Transport.Failure} (h : IsSuccess status) (ht : t.Told f) :
    Means host round (.response status (.error t)) (.error f)
  | statusOnly {status : Nat} {t : Trouble} (h : ¬IsSuccess status) :
    Means host round (.response status (.error t)) (.error (.status status ""))
  | failed {t : Trouble} {f : Transport.Failure} (ht : t.Told f) : Means host round (.failed t) (.error f)

namespace Trouble
variable {t : Trouble}

theorem failure_of_isDecode (h : t.isTimeout = false ∧ t.isDecode = true) : t.failure = .undecodable t.text := by
  simp [failure, h.1, h.2]

theorem failure_of_neither (h : t.isTimeout = false ∧ t.isDecode = false) : t.failure = .network t.text := by
  simp [failure, h.1, h.2]

theorem told_failure (t : Trouble) : t.Told t.failure := by
  cases htimeout : t.isTimeout with
  | true =>
    rw [failure, htimeout]
    exact .timedOut htimeout
  | false =>
    cases hdecode : t.isDecode with
    | true =>
      rw [failure_of_isDecode ⟨htimeout, hdecode⟩]
      exact .undecodable ⟨htimeout, hdecode⟩
    | false =>
      rw [failure_of_neither ⟨htimeout, hdecode⟩]
      exact .network ⟨htimeout, hdecode⟩

end Trouble

namespace Host.Documented
variable {host : Host σ} {round : List Char → Option Number.Binary64}

/-- A success means what is read of its body. -/
theorem means_json (hlib : host.Documented round) {status : Nat} (hstatus : IsSuccess status) (body : String) :
    Means host round (.response status (.ok body)) ((host.json body).mapError Trouble.failure) := by
  cases hbody : host.json body with
  | ok v => exact .value hstatus ((hlib.reads body v).1 hbody)
  | error t =>
    rw [Except.mapError, Trouble.failure_of_isDecode (hlib.tells body t hbody)]
    refine .undecodable hstatus ?_ hbody
    intro v hv
    rw [(hlib.reads body v).2 hv] at hbody
    cases hbody

/-- A success whose body is JSON comes to its value. -/
theorem outcome_eq (hlib : host.Documented round) {status : Nat} {body : String} {v : Json}
    {outcome : Except Transport.Failure Json} (h : Means host round (.response status (.ok body)) outcome)
    (hstatus : IsSuccess status) (hbody : Json.Denotes round 127 body v) : outcome = .ok v := by
  cases h with
  | value _ hw =>
    rw [← hlib.reads] at hbody hw
    rw [hbody] at hw
    rw [Except.ok.inj hw]
  | undecodable _ hnone => exact absurd hbody (hnone v)
  | status hnot => exact absurd hstatus hnot

theorem means_decide (hlib : host.Documented round) (reply : Reply) : Means host round reply (host.decide reply) := by
  cases reply with
  | failed t => exact .failed t.told_failure
  | response status body =>
    rw [Host.decide]
    split
    · next h =>
      cases body with
      | error t => exact .brokenOff h t.told_failure
      | ok body => exact hlib.means_json h body
    · next h =>
      cases body with
      | error t => exact .statusOnly h
      | ok body => exact .status h

end Host.Documented

namespace Settings

/-! One message at a time. -/

section
variable {s : Settings} {host : Host σ} {m : Message} {state : σ}

/-- A refusal is met by a wait, if there are retries left, and the rest is a call with one of them less. -/
theorem exchangeFrom_of_refusal (h : (host.send state m).1.IsRefusal) (attempt retries : Nat) :
    exchangeFrom s host m attempt (retries + 1) state =
      let rest := exchangeFrom s host m (attempt + 1) retries (host.send state m).2
      { rest with messages := m :: rest.messages, waits := s.retryDelay attempt :: rest.waits } := by
  obtain ⟨body, hbody⟩ := h
  simp only [exchangeFrom, hbody, tooMany, if_true]

/-- Any other answer decides, and without retries so does a refusal. -/
theorem exchangeFrom_of_decisive {retries : Nat} (h : ¬(host.send state m).1.IsRefusal ∨ retries = 0) (attempt : Nat) :
    exchangeFrom s host m attempt retries state =
      ⟨[m], [], host.decide (host.send state m).1, (host.send state m).2⟩ := by
  cases retries with
  | zero => rfl
  | succ retries =>
    have hother : ¬(host.send state m).1.IsRefusal := h.resolve_right (Nat.succ_ne_zero retries)
    cases hreply : (host.send state m).1 with
    | response status body =>
      have hstatus : status ≠ tooMany := by
        rintro rfl
        exact hother ⟨body, hreply⟩
      simp only [exchangeFrom, hreply, if_neg hstatus]
    | failed t => simp only [exchangeFrom, hreply]

end

/-- From a state on, a call sends its message until the decisive answer and waits before each retry. -/
theorem exchangeFrom_spec (s : Settings) (host : Host σ) (m : Message) (attempt retries : Nat) (state : σ) :
    ∃ k, IsDecisive (host.answer m state) retries k ∧
      exchangeFrom s host m attempt retries state =
        ⟨List.replicate (k + 1) m, (List.range' attempt k).map s.retryDelay, host.decide (host.answer m state k),
          host.after m state (k + 1)⟩ := by
  induction retries generalizing attempt state with
  | zero => exact ⟨0, .zero (.inr rfl), exchangeFrom_of_decisive (.inr rfl) attempt⟩
  | succ retries ih =>
    by_cases h : (host.send state m).1.IsRefusal
    · obtain ⟨k, hk, hrest⟩ := ih (attempt + 1) (host.send state m).2
      refine ⟨k + 1, .succ h hk, ?_⟩
      rw [exchangeFrom_of_refusal h, hrest]
      rfl
    · exact ⟨0, .zero (.inl h), exchangeFrom_of_decisive (.inl h) attempt⟩

/-! The waits. -/

/-- The factor of a wait saturates at the largest number of 32 bits. -/
theorem backoff_eq_min (attempt : Nat) : backoff attempt = min (2 ^ attempt) (2 ^ 32 - 1) := by
  unfold backoff
  by_cases h : attempt < 32
  · have hpow : 2 ^ attempt ≤ 2 ^ 31 := Nat.pow_le_pow_right (by decide) (by omega)
    rw [if_pos h, Nat.one_shiftLeft]
    omega
  · have hpow : 2 ^ 32 ≤ 2 ^ attempt := Nat.pow_le_pow_right (by decide) (by omega)
    rw [if_neg h]
    omega

theorem backoff_monotone : Monotone backoff := by
  intro a b hab
  have hpow : 2 ^ a ≤ 2 ^ b := Nat.pow_le_pow_right (by decide) hab
  rw [backoff_eq_min, backoff_eq_min]
  omega

theorem retryDelay_monotone (s : Settings) : Monotone s.retryDelay := by
  intro a b hab
  have hproduct : s.retryBase * backoff a ≤ s.retryBase * backoff b := Nat.mul_le_mul_left _ (backoff_monotone hab)
  exact min_le_min_right longest hproduct

/-- A call of which no request can be made sends nothing. Otherwise, whatever a server answers, it sends one message
again and again up to the answer that decides, the first that is no refusal for too many requests or the last one that
the settings allow. It waits before each retry as long as is due before the retry of that number, and at no other time,
and comes to what the answer means. A wait is the base, doubled as often as there were retries before it, where the
factor goes up to the largest number of 32 bits and the wait up to the longest span; so no wait is shorter than an
earlier one. -/
theorem exchange_retries (s : Settings) {host : Host σ} {round : List Char → Option Number.Binary64}
    (hlib : host.Documented round) (r : Transport.Request) (state : σ) :
    let m := s.message r
    let x := s.exchange host r state
    (∀ t, host.unsendable? m = some t → x = ⟨[], [], .error (.network t.text), state⟩) ∧
    (host.unsendable? m = none → ∃ k, (∀ k', IsDecisive (host.answer m state) s.maxRetries k' ↔ k' = k) ∧
      x.messages = List.replicate (k + 1) m ∧ x.waits = (List.range k).map s.retryDelay ∧
      Means host round (host.answer m state k) x.outcome ∧ x.host = host.after m state (k + 1)) ∧
    (∀ attempt, s.retryDelay attempt = min (s.retryBase * min (2 ^ attempt) (2 ^ 32 - 1)) longest) ∧
    Monotone s.retryDelay := by
  intro m x
  refine ⟨?_, ?_, ?_, s.retryDelay_monotone⟩
  · intro t ht
    simp only [x, exchange, m, ht, Trouble.failure_of_neither (hlib.refuses m t ht)]
  · intro hsends
    obtain ⟨k, hk, hx⟩ := exchangeFrom_spec s host m 0 s.maxRetries state
    have hx : x = _ := Eq.trans (by simp only [x, exchange, m, hsends]) hx
    refine ⟨k, fun k' => ⟨hk.unique, fun h => h ▸ hk⟩, ?_⟩
    rw [hx, List.range_eq_range']
    exact ⟨rfl, rfl, hlib.means_decide _, rfl⟩
  · intro attempt
    rw [retryDelay, backoff_eq_min]

theorem exchange_retries_after_refusal :
    let s : Settings := {}
    let r : Transport.Request := ⟨"/x", none⟩
    let x := s.exchange Host.script r [.response 429 (.ok "slow down"), .response 200 (.ok "\x7b\"ok\":true\x7d")]
    Host.script.Documented Json.Token.round? ∧ x.messages.length = 2 ∧ x.waits = [500000000] ∧
      x.outcome = .ok (.object [("ok", .bool true)]) := by
  intro s r x
  have hlib : Host.script.Documented Json.Token.round? := Host.documented_of_readBody (fun _ => rfl) rfl
  have hbody : Json.Denotes Json.Token.round? 127 "\x7b\"ok\":true\x7d" (.object [("ok", .bool true)]) := by
    refine ⟨[.openObject, .string "ok", .colon, .bool true, .closeObject], ?_, ?_⟩
    · have hkey : Json.Token.IsWritten Json.Token.round? ['"', 'o', 'k', '"'] (.string "ok") :=
        .string (.cons (.plain (by decide)) (.cons (.plain (by decide)) .nil))
      exact .token (.word (t := .openObject) rfl)
        (.token hkey (.token (.word (t := .colon) rfl)
          (.token (.word (t := .bool true) rfl) (.token (.word (t := .closeObject) rfl) .nil))))
    · exact .object (.field (k := "ok") (.bool (b := true)))
  obtain ⟨-, hsent, -, -⟩ := exchange_retries s hlib r
    [.response 429 (.ok "slow down"), .response 200 (.ok "\x7b\"ok\":true\x7d")]
  obtain ⟨k, hk, hmessages, hwaits, hmeans, -⟩ := hsent rfl
  have hone : 1 = k := by
    refine (hk 1).1 ⟨by decide, ?_, ?_⟩
    · intro i hi
      obtain rfl : i = 0 := by omega
      exact ⟨_, rfl⟩
    · rintro - ⟨body, hrefusal⟩
      cases hrefusal
  subst hone
  refine ⟨hlib, ?_, ?_, hlib.outcome_eq hmeans (by decide) hbody⟩
  · rw [hmessages, List.length_replicate]
  · rw [hwaits]
    decide

end Settings
end RecordSource.Http
