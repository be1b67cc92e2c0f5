import LocalHttp.Proofs.ClientTurns
import LocalHttp.Proofs.ServerTurns
import Mathlib.Data.Nat.Find

namespace LocalHttp.Exchange

open Incoming

variable {σ : Type} {service : Service σ} {x : Exchange} {t : Turn σ} {schedule : Nat → Turn σ}
  {asked answered : Bytes} {response : Response}

def Open (asked answered : Bytes) (x : Exchange) : Prop := x.Asking asked ∨ x.Answering answered

theorem Open.result? (h : x.Open asked answered) : x.call.result? = none := by
  rcases h with h | h
  · exact h.result?
  · obtain ⟨socket, incoming, got, hk, -⟩ := h.heard
    rw [hk]
    rfl

theorem Open.exists_pending (h : x.Open asked answered)
    (hs : service.Answers asked answered response) : ∃ way, x.pending way ≠ [] := by
  refine Classical.byContradiction fun hall ↦ ?_
  simp only [ne_eq, not_exists, Classical.not_not] at hall
  rcases h with h | h
  · obtain ⟨got, hheard, hw⟩ := h.heard
    obtain ⟨raw, request, hraw, -⟩ := hs.request
    rw [show x.toServer = [] from hall .requestIn, show x.call.unsent = [] from hall .requestOut,
      List.append_nil, List.append_nil] at hw
    rw [hw, hheard.reads] at hraw
    cases hraw
  · obtain ⟨socket, incoming, got, hk, hheard, hw⟩ := h.heard
    obtain ⟨raw, hraw, -⟩ := hs.response
    rw [show x.toClient = [] from hall .responseIn,
      show x.connection.unsent = [] from hall .responseOut, List.append_nil,
      List.append_nil] at hw
    rw [hw, hheard.reads] at hraw
    cases hraw

/-- A turn brings the response, or brings it nearer, or changes nothing for want of an occasion. -/
theorem Open.next (h : x.Open asked answered) (hs : service.Answers asked answered response)
    (ha : x.Allows t) :
    (x.next service t).Answered response ∨
      (x.next service t).Open asked answered ∧ Goes answered.length t x (x.next service t) := by
  cases hp : t.party with
  | client =>
    rcases h with h | h
    · cases hk : x.call with
      | sending socket outgoing =>
        exact .inr ((h.next_sending hk hp ha _).imp_left .inl)
      | receiving socket incoming =>
        exact (h.next_receiving hs hk hp ha _).imp_right (And.imp_left .inl)
      | done socket result =>
        have hr := h.result?
        rw [hk] at hr
        cases hr
    · exact (h.next_client hs hp ha _).imp_right (And.imp_left .inr)
  | server =>
    rcases h with h | h
    · by_cases hr : t.readiness.readable = true
      · exact .inr (h.next_reading hs hp ha hr)
      · exact .inr ((h.next_idle hp ha hr _).imp_left .inl)
    · exact .inr ((h.next_server hp ha _).imp_left .inr)

theorem Answered.next (h : x.Answered response) : (x.next service t).Answered response := by
  unfold Answered at h ⊢
  cases hk : x.call with
  | done socket result =>
    rw [hk] at h
    rw [Exchange.next]
    cases t.party with
    | client => rw [hk]; exact h
    | server => rw [hk]; exact h
  | _ => rw [hk] at h; cases h
theorem Fair.answered_or_open (hf : x.Fair service schedule) (hx : x.Open asked answered)
    (hs : service.Answers asked answered response) (n : Nat) :
    (x.run service schedule n).Answered response ∨
      (x.run service schedule n).Open asked answered := by
  induction n with
  | zero => exact .inr hx
  | succ n ih =>
    rcases ih with h | h
    · exact .inl h.next
    · exact (h.next hs (hf.allowed n)).imp_right And.left

theorem answered_mono {n m : Nat} (hnm : n ≤ m)
    (h : (x.run service schedule n).Answered response) :
    (x.run service schedule m).Answered response := by
  induction hnm with
  | refl => exact h
  | step _ ih => exact ih.next

theorem Fair.compare (hf : x.Fair service schedule) (hx : x.Open asked answered)
    (hs : service.Answers asked answered response) {n m : Nat} (hnm : n ≤ m) :
    (x.run service schedule m).Answered response ∨
      (x.run service schedule m).left answered.length <
        (x.run service schedule n).left answered.length ∨
      (x.run service schedule m).left answered.length =
          (x.run service schedule n).left answered.length ∧
        ∀ way, (x.run service schedule m).pending way = (x.run service schedule n).pending way := by
  induction hnm with
  | refl => exact .inr (.inr ⟨rfl, fun _ ↦ rfl⟩)
  | @step m hnm ih =>
    rcases hf.answered_or_open hx hs m with h | h
    · exact .inl h.next
    · rcases h.next hs (hf.allowed m) with ha | ⟨-, hg⟩
      · exact .inl ha
      · refine .inr ?_
        rcases ih with ha | hlt | ⟨he, hp⟩
        · rw [Answered, h.result?] at ha
          cases ha
        · rcases hg with hg | ⟨hg, -⟩
          · exact .inl (Nat.lt_trans hg hlt)
          · exact .inl (Nat.lt_of_le_of_lt (Nat.le_of_eq hg) hlt)
        · rcases hg with hg | ⟨hg, hsame, -⟩
          · exact .inl (Nat.lt_of_lt_of_eq hg he)
          · exact .inr ⟨hg.trans he, fun way ↦ (hsame way).trans (hp way)⟩

theorem Fair.exists_answered (hf : x.Fair service schedule) (hx : x.Open asked answered)
    (hs : service.Answers asked answered response) :
    ∃ n, (x.run service schedule n).Answered response := by
  -- bytes that wait now still wait when they get their occasion, unless some have moved meanwhile
  have key (k n : Nat) (hk : (x.run service schedule n).left answered.length = k) :
      ∃ m, (x.run service schedule m).Answered response := by
    induction k using Nat.strongRecOn generalizing n with
    | ind k ih =>
      rcases hf.answered_or_open hx hs n with h | h
      · exact ⟨n, h⟩
      · obtain ⟨way, hway⟩ := h.exists_pending hs
        obtain ⟨m, hnm, hoffer⟩ := hf.moves way n
        rcases hf.compare hx hs hnm with ha | hlt | ⟨he, hp⟩
        · exact ⟨m, ha⟩
        · exact ih _ (hk ▸ hlt) m rfl
        · rcases hf.answered_or_open hx hs m with ha | ho
          · exact ⟨m, ha⟩
          · rw [← hp way] at hway
            rcases ho.next hs (hf.allowed m) with ha | ⟨-, hlt | ⟨-, -, hno⟩⟩
            · exact ⟨m + 1, ha⟩
            · exact ih _ (hk ▸ Nat.lt_of_lt_of_eq hlt he) (m + 1) rfl
            · exact absurd (hoffer hway) (hno way hway)
  exact key _ 0 rfl

/-- In a fair exchange the client waits until it has the response, which it then keeps. -/
theorem Fair.exists_result (hf : x.Fair service schedule) (hx : x.Open asked answered)
    (hs : service.Answers asked answered response) :
    ∃ n, (∀ m < n, (x.run service schedule m).call.result? = none) ∧
      ∀ m ≥ n, (x.run service schedule m).call.result? = some (.ok response) := by
  classical
  have he := hf.exists_answered hx hs
  refine ⟨Nat.find he, fun m hm ↦ ?_, fun m hm ↦ answered_mono hm (Nat.find_spec he)⟩
  rcases hf.answered_or_open hx hs m with h | h
  · exact absurd h (Nat.find_min he hm)
  · exact h.result?

def eagerTurn (x : Exchange) (party : Party) (state : σ) : Turn σ where
  party := party
  readiness := { readable := true, writable := true }
  arrivals := [.data (x.waiting party)]
  acceptances := [.room 1]
  state := state

def partyAt (n : Nat) : Party := if n % 2 = 0 then .client else .server

def eagerRun (service : Service σ) (x : Exchange) (state : σ) : Nat → Exchange
  | 0 => x
  | n + 1 =>
    let y := eagerRun service x state n
    y.next service (y.eagerTurn (partyAt n) state)

def eager (service : Service σ) (x : Exchange) (state : σ) (n : Nat) : Turn σ :=
  (eagerRun service x state n).eagerTurn (partyAt n) state

theorem run_eager (service : Service σ) (x : Exchange) (state : σ) (n : Nat) :
    x.run service (eager service x state) n = eagerRun service x state n := by
  induction n with
  | zero => rfl
  | succ n ih => rw [run, ih, eagerRun, eager]

theorem allows_eagerTurn (x : Exchange) (party : Party) (state : σ) :
    x.Allows (x.eagerTurn party state) := by
  refine ⟨rfl, fun errno hm ↦ ?_, ⟨List.prefix_refl _, trivial⟩, fun hu ↦ ?_⟩
  · exact nomatch List.mem_singleton.1 hm
  · exact nomatch (show false = true from hu)

theorem exists_partyAt (party : Party) (n : Nat) : ∃ m, n ≤ m ∧ partyAt m = party := by
  cases party with
  | client => exact ⟨2 * n, by omega, if_pos (by omega)⟩
  | server => exact ⟨2 * n + 1, by omega, if_neg (by omega)⟩

theorem offers_eagerTurn {x : Exchange} (state : σ) {way : Way} (h : x.pending way ≠ []) :
    (x.eagerTurn way.party state).Offers way := by
  cases way with
  | requestOut => exact ⟨rfl, rfl⟩
  | requestIn =>
    obtain ⟨b, bytes, hb⟩ := List.exists_cons_of_ne_nil h
    have hw : x.waiting .server = b :: bytes := hb
    refine ⟨rfl, rfl, ?_⟩
    rw [eagerTurn, Way.party, hw]
    rfl
  | responseOut => exact ⟨rfl, rfl, rfl⟩
  | responseIn =>
    obtain ⟨b, bytes, hb⟩ := List.exists_cons_of_ne_nil h
    have hw : x.waiting .client = b :: bytes := hb
    refine ⟨rfl, ?_⟩
    rw [eagerTurn, Way.party, hw]
    rfl

/-- Every exchange can go on fairly. -/
theorem fair_eager (service : Service σ) (x : Exchange) (state : σ) :
    x.Fair service (eager service x state) := by
  refine ⟨fun n ↦ ?_, fun way n ↦ ?_⟩
  · rw [run_eager]
    exact allows_eagerTurn _ _ _
  · obtain ⟨m, hnm, hp⟩ := exists_partyAt way.party n
    refine ⟨m, hnm, fun hne ↦ ?_⟩
    rw [run_eager] at hne
    rw [eager, hp]
    exact offers_eagerTurn state hne

end LocalHttp.Exchange
