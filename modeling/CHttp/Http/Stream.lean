import CHttp.Http.Parser
import Mathlib.Data.List.Infix
import Mathlib.Order.Basic

/-!
# Streams of messages

A stream of messages reaches the parser in buffers that are cut anywhere. `Llhttp.reports` is what
`llhttp` reports of the buffers, one after another, and `Llhttp.Takes` what is assumed of it where a
result speaks of messages on a stream that is not parsed here.

`Llhttp.script` is a tokeniser for one stream. It reports the parts of the stream as they come, as
`llhttp` does, and the runs on given inputs are made with it.
-/

namespace CHttp

/-- What `llhttp` reports for the chunks of a stream, given to it one after another, and the state
it is in afterwards. -/
def Llhttp.reports (L : Llhttp) (ll : L.State) : List (List UInt8) → L.State × List LlEvent
  | [] => (ll, [])
  | c :: cs =>
    let next := L.reports (L.execute ll c).1 cs
    (next.1, (L.execute ll c).2.1 ++ next.2)

theorem Llhttp.reports_concat (L : Llhttp) (ll : L.State) (cs : List (List UInt8))
    (c : List UInt8) : L.reports ll (cs ++ [c]) =
      ((L.execute (L.reports ll cs).1 c).1,
        (L.reports ll cs).2 ++ (L.execute (L.reports ll cs).1 c).2.1) := by
  induction cs generalizing ll with
  | nil => simp [Llhttp.reports]
  | cons c' cs ih => simp [Llhttp.reports, ih]

/-! ### Where messages end -/

/-- How many of the requests end within the first `n` bytes of the stream they make up. -/
def requestsWithin : List (List UInt8) → ℕ → ℕ
  | [], _ => 0
  | r :: rs, n => if r.length ≤ n then requestsWithin rs (n - r.length) + 1 else 0

variable {reqs : List (List UInt8)}

theorem requestsWithin_le_length (reqs : List (List UInt8)) (n : ℕ) :
    requestsWithin reqs n ≤ reqs.length := by
  induction reqs generalizing n with
  | nil => exact le_rfl
  | cons r rs ih =>
    simp only [requestsWithin]
    split
    · exact Nat.succ_le_succ (ih _)
    · exact Nat.zero_le _

/-- More bytes end no fewer requests. -/
theorem requestsWithin_mono (reqs : List (List UInt8)) {m n : ℕ} (h : m ≤ n) :
    requestsWithin reqs m ≤ requestsWithin reqs n := by
  induction reqs generalizing m n with
  | nil => exact le_rfl
  | cons r rs ih =>
    simp only [requestsWithin]
    by_cases hm : r.length ≤ m
    · rw [if_pos hm, if_pos (hm.trans h)]
      exact Nat.succ_le_succ (ih (Nat.sub_le_sub_right h _))
    · rw [if_neg hm]
      exact Nat.zero_le _

/-- What follows the first messages makes no difference to them. -/
theorem requestsWithin_of_take (h : ∀ r ∈ reqs, r ≠ []) {k n : ℕ}
    (hn : n ≤ (reqs.take k).flatten.length) :
    requestsWithin reqs n = requestsWithin (reqs.take k) n := by
  induction reqs generalizing k n with
  | nil => rw [List.take_nil]
  | cons r rs ih =>
    obtain ⟨hr, hrs⟩ := List.forall_mem_cons.mp h
    cases k with
    | zero =>
      obtain rfl : n = 0 := Nat.le_zero.mp hn
      have hpos : ¬ r.length ≤ 0 := by simpa using hr
      simp [requestsWithin, hpos]
    | succ k =>
      rw [List.take_succ_cons, List.flatten_cons, List.length_append] at hn
      simp only [List.take_succ_cons, requestsWithin]
      split
      · have hrest : n - r.length ≤ (rs.take k).flatten.length := by omega
        rw [ih hrs hrest]
      · rfl

/-- All messages end within all bytes. -/
theorem requestsWithin_flatten (reqs : List (List UInt8)) :
    requestsWithin reqs reqs.flatten.length = reqs.length := by
  induction reqs with
  | nil => rfl
  | cons r rs ih =>
    simp only [requestsWithin, List.flatten_cons, List.length_append, Nat.le_add_right, if_true,
      Nat.add_sub_cancel_left, ih, List.length_cons]

/-- The first messages of a stream end within their bytes, and no other. -/
theorem requestsWithin_take (h : ∀ r ∈ reqs, r ≠ []) (k : ℕ) :
    requestsWithin reqs (reqs.take k).flatten.length = min k reqs.length := by
  rw [requestsWithin_of_take h le_rfl, requestsWithin_flatten, List.length_take]

/-- And only when all bytes have come. -/
theorem length_flatten_le {n : ℕ} (h : reqs.length ≤ requestsWithin reqs n) :
    reqs.flatten.length ≤ n := by
  induction reqs generalizing n with
  | nil => exact Nat.zero_le _
  | cons r rs ih =>
    simp only [requestsWithin] at h
    split at h
    · have hrest := ih (Nat.le_of_succ_le_succ h)
      rw [List.flatten_cons, List.length_append]
      omega
    · simp at h

namespace Llhttp

/-- What is assumed of `llhttp`. On the stream of these requests, however it is cut, it calls
`on_message_complete` once for each request, when it comes to the last byte of it, and goes on with
what follows in the same buffer. -/
def CompletesEach (L : Llhttp) (reqs : List (List UInt8)) : Prop :=
  ∀ chunks : List (List UInt8), (∀ c ∈ chunks, c ≠ []) → chunks.flatten <+: reqs.flatten →
    (L.reports L.init chunks).2.count .messageComplete = requestsWithin reqs chunks.flatten.length

/-- What is assumed of `llhttp` on a stream of messages, however it is cut: it completes each of
them with its last byte and finds no error. -/
structure Takes (L : Llhttp) (texts : List (List UInt8)) : Prop where
  completes : L.CompletesEach texts
  goesOn : ∀ (chunks : List (List UInt8)) (c : List UInt8), (∀ c ∈ chunks, c ≠ []) → c ≠ [] →
    (chunks ++ [c]).flatten <+: texts.flatten →
      (L.execute (L.reports L.init chunks).1 c).2.2 = .ok

/-- The first messages of a stream are taken too. -/
theorem Takes.take {L : Llhttp} (hL : L.Takes reqs) (h : ∀ r ∈ reqs, r ≠ []) (k : ℕ) :
    L.Takes (reqs.take k) := by
  have hpre : (reqs.take k).flatten <+: reqs.flatten := (List.take_prefix k reqs).flatten
  refine ⟨fun chunks hne hin => ?_, fun chunks c hne hc hin =>
    hL.goesOn chunks c hne hc (hin.trans hpre)⟩
  rw [hL.completes chunks hne (hin.trans hpre), requestsWithin_of_take h hin.length_le]

end Llhttp

/-! ### A tokeniser for one stream -/

/-- A part of a stream, and what is reported when it has come. -/
structure Token where
  bytes : List UInt8
  events : List LlEvent
  bytes_ne_nil : bytes ≠ []

namespace Token

/-- A line. -/
def line (text : List UInt8) (events : List LlEvent) : Token where
  bytes := text ++ ascii "\r\n"
  events := events
  bytes_ne_nil := List.append_ne_nil_of_right_ne_nil _ (by decide)

/-- The line of a header field. -/
def header (name value : List UInt8) : Token :=
  line (name ++ ascii ": " ++ value) [.headerField name, .headerValue value]

end Token

/-- A stream in parts. -/
abbrev Script := List Token

namespace Script

variable {s : Script} {scripts : List Script}

def bytes (s : Script) : List UInt8 := s.flatMap Token.bytes

def events (s : Script) : List LlEvent := s.flatMap Token.events

/-- What is reported of the first `n` bytes. -/
def within : Script → ℕ → List LlEvent
  | [], _ => []
  | t :: s, n => if t.bytes.length ≤ n then t.events ++ within s (n - t.bytes.length) else []

private theorem within_zero (s : Script) : s.within 0 = [] := by
  cases s with
  | nil => rfl
  | cons t s => simp [within, t.bytes_ne_nil]

/-- What was reported is not taken back. -/
theorem within_prefix (s : Script) {m n : ℕ} (h : m ≤ n) : s.within m <+: s.within n := by
  induction s generalizing m n with
  | nil => exact List.prefix_rfl
  | cons t s ih =>
    by_cases hm : t.bytes.length ≤ m
    · simp only [within, if_pos hm, if_pos (hm.trans h)]
      exact (List.prefix_append_right_inj _).mpr (ih (Nat.sub_le_sub_right h _))
    · simp only [within, if_neg hm]
      exact List.nil_prefix

theorem within_prefix_events (s : Script) (n : ℕ) : s.within n <+: s.events := by
  induction s generalizing n with
  | nil => exact List.prefix_rfl
  | cons t s ih =>
    simp only [within]
    split
    · exact (List.prefix_append_right_inj _).mpr (ih _)
    · exact List.nil_prefix

private theorem within_append (s s' : Script) (n : ℕ) : Script.within (s ++ s') n =
    if s.bytes.length ≤ n then s.events ++ s'.within (n - s.bytes.length) else s.within n := by
  induction s generalizing n with
  | nil => simp [bytes, events]
  | cons t s ih =>
    have hbytes : Script.bytes (t :: s) = t.bytes ++ Script.bytes s := rfl
    have hevents : Script.events (t :: s) = t.events ++ Script.events s := rfl
    by_cases ht : t.bytes.length ≤ n
    · have hiff : (Script.bytes s).length ≤ n - t.bytes.length ↔
          t.bytes.length + (Script.bytes s).length ≤ n := by omega
      simp only [List.cons_append, within, if_pos ht, ih, hiff, hbytes, hevents, List.length_append]
      split
      · rw [List.append_assoc, Nat.sub_sub]
      · rfl
    · have hlong : ¬ t.bytes.length + (Script.bytes s).length ≤ n := by omega
      simp only [List.cons_append, within, if_neg ht, hbytes, List.length_append, if_neg hlong]

/-- The last part of a message completes it, and no other does. -/
structure IsMessage (s : Script) : Prop where
  completes : s.events.count .messageComplete = 1
  last : .messageComplete ∉ Script.events s.dropLast

theorem IsMessage.bytes_ne_nil (h : s.IsMessage) : s.bytes ≠ [] := by
  cases s with
  | nil => exact absurd h.completes (by decide)
  | cons t s => exact List.append_ne_nil_of_left_ne_nil t.bytes_ne_nil _

private theorem within_prefix_dropLast {n : ℕ} (h : n < s.bytes.length) :
    s.within n <+: Script.events s.dropLast := by
  induction s generalizing n with
  | nil => exact absurd h (Nat.not_lt_zero n)
  | cons t s ih =>
    simp only [within]
    split
    · cases s with
      | nil =>
        simp only [bytes, List.flatMap_singleton] at h
        omega
      | cons t' s =>
        have hlen : (Script.bytes (t :: t' :: s)).length =
            t.bytes.length + (Script.bytes (t' :: s)).length :=
          List.length_append
        exact (List.prefix_append_right_inj _).mpr (ih (by omega))
    · exact List.nil_prefix

/-- Before its end a message is not complete. -/
theorem IsMessage.count_within (h : s.IsMessage) {n : ℕ} (hn : n < s.bytes.length) :
    (s.within n).count .messageComplete = 0 :=
  List.count_eq_zero.mpr fun hmem => h.last ((within_prefix_dropLast hn).subset hmem)

/-- The messages that end are complete. -/
theorem count_within_flatten (h : ∀ s ∈ scripts, s.IsMessage) (n : ℕ) :
    (Script.within scripts.flatten n).count .messageComplete =
      requestsWithin (scripts.map bytes) n := by
  induction scripts generalizing n with
  | nil => rfl
  | cons s scripts ih =>
    obtain ⟨hs, hscripts⟩ := List.forall_mem_cons.mp h
    simp only [List.flatten_cons, within_append, List.map_cons, requestsWithin]
    split
    · rw [List.count_append, hs.completes, ih hscripts, Nat.add_comm]
    · exact hs.count_within (not_le.mp ‹_›)

theorem events_flatten (scripts : List Script) :
    Script.events scripts.flatten = scripts.flatMap events := by
  rw [events, ← List.flatMap_id, List.flatMap_assoc]
  rfl

end Script

namespace Llhttp

/-- The tokeniser for a stream: it has come so far, and reports the parts that end. -/
def script (s : Script) : Llhttp where
  State := ℕ
  init := 0
  execute n c := (n + c.length, (s.within (n + c.length)).drop (s.within n).length, .ok)
  finish n := (n, [], .ok)

private theorem within_append_reports (s : Script) (n : ℕ) (chunks : List (List UInt8)) :
    s.within n ++ ((script s).reports n chunks).2 = s.within (n + chunks.flatten.length) := by
  induction chunks generalizing n with
  | nil => exact List.append_nil _
  | cons c cs ih =>
    have hnext : s.within n ++ (s.within (n + c.length)).drop (s.within n).length =
        s.within (n + c.length) :=
      (List.prefix_iff_eq_append.mp (s.within_prefix (Nat.le_add_right n c.length)))
    have hreports : ((script s).reports n (c :: cs)).2 =
        (s.within (n + c.length)).drop (s.within n).length ++
          ((script s).reports (n + c.length) cs).2 := rfl
    rw [hreports, ← List.append_assoc, hnext, ih, List.flatten_cons, List.length_append,
      Nat.add_assoc]

/-- However the stream is cut, what has come is reported. -/
theorem reports_script (s : Script) (chunks : List (List UInt8)) :
    ((script s).reports (script s).init chunks).2 = s.within chunks.flatten.length := by
  have h := within_append_reports s 0 chunks
  rwa [s.within_zero, List.nil_append, Nat.zero_add] at h

theorem takes_script {scripts : List Script} (h : ∀ s ∈ scripts, s.IsMessage) :
    (script scripts.flatten).Takes (scripts.map Script.bytes) where
  completes chunks _ _ := by rw [reports_script, Script.count_within_flatten h]
  goesOn _ _ _ _ _ := rfl

end Llhttp

end CHttp
