import Mathlib.Data.Int.Notation
import Mathlib.Data.List.Basic

/-!
# `sync_client_connect`

`connection_helper` walks the list that `getaddrinfo` returned with
`for(rp = result; rp != NULL; rp->ai_next)`. The last expression has no effect, so `rp` stays at the
first address: when `socket` or `connect` fails there, it is tried again, and the addresses after it
are never tried.
-/

namespace CHttp

/-- What `socket` and `connect` return in one attempt. -/
structure Attempt where
  socket : ℤ
  connect : ℤ
  deriving DecidableEq, Repr

namespace Attempt

/-- `socket` failed. -/
def noSocket (a : Attempt) : Bool := a.socket == -1

/-- A descriptor was opened and connected. -/
def succeeds (a : Attempt) : Bool := !a.noSocket && a.connect == 0

/-- The descriptor of an attempt, if one was opened. -/
def opened (a : Attempt) : Option ℤ := if a.noSocket then none else some a.socket

end Attempt

/-- What is left by `connection_helper`: the socket of the connection, or `exit(-1)` with "Could not
bind", the positions in the list of the addresses tried and the descriptors closed, in order. -/
structure Connected where
  connection : Option ℤ
  attempts : List ℕ
  closed : List ℤ
  deriving DecidableEq, Repr

namespace SyncClient

variable {α : Type*}

/-- The loop over the addresses; `rp` is a position in the list, past its end `NULL`. The outcome
of an attempt depends on the address and on the number of attempts before it. No result: the loop is
still running. -/
def tryAddresses (env : ℕ → α → Attempt) (result : List α) :
    ℕ → ℕ → List ℕ → List ℤ → Option Connected
  | 0, _, _, _ => none
  | fuel + 1, rp, attempts, closed =>
    match result[rp]? with
    | none => some ⟨none, attempts, closed⟩
    | some ai =>
      let sfd := (env attempts.length ai).socket
      -- `continue`, and the increment `rp->ai_next` is assigned to nothing
      if sfd = -1 then tryAddresses env result fuel rp (attempts ++ [rp]) closed
      else if (env attempts.length ai).connect = 0 then some ⟨some sfd, attempts ++ [rp], closed⟩
      else tryAddresses env result fuel rp (attempts ++ [rp]) (closed ++ [sfd])

/-- `connection_helper` once `getaddrinfo` has returned `result`. -/
def connectionHelper (env : ℕ → α → Attempt) (result : List α) (fuel : ℕ) : Option Connected :=
  tryAddresses env result fuel 0 [] []

/-! ### What the loop is for -/

/-- The outcomes when each address is tried once, in order. -/
def outcomes (env : ℕ → α → Attempt) (result : List α) : List Attempt := result.mapIdx env

/-- The attempts before the first that succeeds. -/
def failures (env : ℕ → α → Attempt) (result : List α) : List Attempt :=
  (outcomes env result).takeWhile fun a => !a.succeeds

/-- The addresses are tried in order, each at most once and none after a success; the connection is
to the first that accepts it, or there is none and failure is reported; and the descriptors of the
others are closed. -/
structure TriesEachOnce (env : ℕ → α → Attempt) (result : List α) (r : Connected) : Prop where
  attempts : r.attempts = List.range (min ((failures env result).length + 1) result.length)
  connection : r.connection = ((outcomes env result).find? Attempt.succeeds).map Attempt.socket
  closed : r.closed = (failures env result).filterMap Attempt.opened

/-! ### What it does -/

private theorem tryAddresses_of_succeeds {env : ℕ → α → Attempt} {result : List α} {rp : ℕ} {ai : α}
    {attempts : List ℕ} (hai : result[rp]? = some ai)
    (h : (env attempts.length ai).succeeds = true) (fuel : ℕ) (closed : List ℤ) :
    tryAddresses env result (fuel + 1) rp attempts closed =
      some ⟨some (env attempts.length ai).socket, attempts ++ [rp], closed⟩ := by
  simp only [Attempt.succeeds, Attempt.noSocket, Bool.and_eq_true, Bool.not_eq_true',
    beq_eq_false_iff_ne, beq_iff_eq] at h
  simp only [tryAddresses, hai, if_neg h.1, if_pos h.2]

/-- An attempt that fails is followed by one on the same address. -/
theorem tryAddresses_of_fails {env : ℕ → α → Attempt} {result : List α} {rp : ℕ} {ai : α}
    {attempts : List ℕ} (hai : result[rp]? = some ai)
    (h : (env attempts.length ai).succeeds = false) (fuel : ℕ) (closed : List ℤ) :
    ∃ closed', tryAddresses env result (fuel + 1) rp attempts closed =
      tryAddresses env result fuel rp (attempts ++ [rp]) closed' := by
  by_cases hs : (env attempts.length ai).socket = -1
  · exact ⟨closed, by simp only [tryAddresses, hai, if_pos hs]⟩
  · have hc : ¬ (env attempts.length ai).connect = 0 := by
      simpa [Attempt.succeeds, Attempt.noSocket, hs] using h
    refine ⟨closed ++ [(env attempts.length ai).socket], ?_⟩
    simp only [tryAddresses, hai, if_neg hs, if_neg hc]

/-- **The loop.** It only ever tries the address where it is. -/
theorem attempts_of_tryAddresses {env : ℕ → α → Attempt} {result : List α} {rp : ℕ} {ai : α}
    (hai : result[rp]? = some ai) {fuel : ℕ} {attempts : List ℕ} {closed : List ℤ} {r : Connected}
    (h : tryAddresses env result fuel rp attempts closed = some r) :
    ∃ k, r.attempts = attempts ++ List.replicate (k + 1) rp := by
  induction fuel generalizing attempts closed with
  | zero => cases h
  | succ fuel ih =>
    cases hs : (env attempts.length ai).succeeds with
    | true =>
      rw [tryAddresses_of_succeeds hai hs] at h
      cases h
      exact ⟨0, rfl⟩
    | false =>
      obtain ⟨closed', heq⟩ := tryAddresses_of_fails hai hs fuel closed
      obtain ⟨k, hk⟩ := ih (heq ▸ h)
      refine ⟨k + 1, ?_⟩
      rw [hk, List.append_assoc]
      rfl

/-- An address where every attempt fails keeps the loop running. -/
theorem tryAddresses_eq_none {env : ℕ → α → Attempt} {result : List α} {rp : ℕ} {ai : α}
    (hai : result[rp]? = some ai) (h : ∀ n, (env n ai).succeeds = false) (fuel : ℕ)
    (attempts : List ℕ) (closed : List ℤ) :
    tryAddresses env result fuel rp attempts closed = none := by
  induction fuel generalizing attempts closed with
  | zero => rfl
  | succ fuel ih =>
    obtain ⟨closed', heq⟩ := tryAddresses_of_fails hai (h attempts.length) fuel closed
    rw [heq, ih]

/-- Where the first attempt succeeds, the first address is the one to connect to. -/
theorem triesEachOnce_of_succeeds {env : ℕ → α → Attempt} {ai : α} (rest : List α)
    (h : (env 0 ai).succeeds = true) :
    TriesEachOnce env (ai :: rest) ⟨some (env 0 ai).socket, [0], []⟩ where
  attempts := by simp [failures, outcomes, h]
  connection := by simp [outcomes, h]
  closed := by simp [failures, outcomes, h]

/-- **Each address once.** `connection_helper` returns having tried the addresses in order, each at
most once, connected to the first that accepts and closed the descriptors of the others, exactly if
the first attempt on the first address succeeds. -/
theorem connectionHelper_triesEachOnce_iff (env : ℕ → α → Attempt) (ai : α) (rest : List α) :
    (∃ fuel r, connectionHelper env (ai :: rest) fuel = some r ∧
      TriesEachOnce env (ai :: rest) r) ↔ (env 0 ai).succeeds = true := by
  have hai : (ai :: rest)[0]? = some ai := rfl
  constructor
  · rintro ⟨fuel, r, hr, hspec⟩
    cases hs : (env 0 ai).succeeds with
    | true => rfl
    | false =>
      exfalso
      cases fuel with
      | zero => cases hr
      | succ fuel =>
        obtain ⟨closed', heq⟩ : ∃ closed', connectionHelper env (ai :: rest) (fuel + 1) =
            tryAddresses env (ai :: rest) fuel 0 [0] closed' :=
          tryAddresses_of_fails hai hs fuel []
        obtain ⟨k, hk⟩ := attempts_of_tryAddresses hai (heq ▸ hr)
        -- the second attempt is on the first address again
        have hmem : r.attempts[1]? = some 0 := by
          rw [hk]
          rfl
        rw [hspec.attempts, List.getElem?_eq_some_iff] at hmem
        obtain ⟨hlt, hzero⟩ := hmem
        rw [List.getElem_range] at hzero
        cases hzero
  · intro h
    exact ⟨1, _, tryAddresses_of_succeeds hai h 0 [], triesEachOnce_of_succeeds rest h⟩

/-- Two addresses, the first of them dead. -/
def firstDead : ℕ → Bool → Attempt := fun _ alive => ⟨3, if alive then 0 else -1⟩

/-- The first is tried for ever. -/
theorem not_triesEachOnce_firstDead :
    (∀ fuel, connectionHelper firstDead [false, true] fuel = none) ∧
      ¬ ∃ fuel r, connectionHelper firstDead [false, true] fuel = some r ∧
        TriesEachOnce firstDead [false, true] r := by
  have hnone : ∀ fuel, connectionHelper firstDead [false, true] fuel = none := fun fuel =>
    tryAddresses_eq_none rfl (fun _ => rfl) fuel [] []
  refine ⟨hnone, ?_⟩
  rintro ⟨fuel, r, hr, -⟩
  cases (hnone fuel).symm.trans hr

end SyncClient

end CHttp
