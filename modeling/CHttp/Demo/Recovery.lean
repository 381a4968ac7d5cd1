import CHttp.Demo.Scanner

/-!
# Error recovery of the demo parser

A stream is read here as frames, each from its `SOH` to the next one: well formed, malformed from
some byte on, or cut short by the next `SOH`. After a wrong byte the parser skips to the next `SOH`,
and what comes of it depends on where the buffers end. A buffer that ends while it skips makes it
report the error, once more for each such buffer, and give up the body collected so far; an `SOH`
that ends a buffer is skipped like anything else. Without such an end the next frame is taken up
with the old body. And an `SOH` in the middle of a frame is a wrong byte itself, so the frame that
starts there is skipped.
-/

namespace CHttp

open DemoMessage (chSoh chStx chEtx opcodeByte)
open DemoParser (isprint)

/-! ### Streams as frames -/

/-- How far a frame was right, after its `SOH`. -/
inductive FrameStart
  | soh
  | opcode (isRequest : Bool)
  | stx (isRequest : Bool) (text : List UInt8) (htext : ∀ ch ∈ text, isprint ch = true)
  | etx (isRequest : Bool) (text : List UInt8) (htext : ∀ ch ∈ text, isprint ch = true)

namespace FrameStart

/-- The bytes after the `SOH`. -/
def bytes : FrameStart → List UInt8
  | .soh => []
  | .opcode isRequest => [opcodeByte isRequest]
  | .stx isRequest text _ => opcodeByte isRequest :: chStx :: text
  | .etx isRequest text _ => opcodeByte isRequest :: chStx :: (text ++ [chEtx])

/-- The characters of the body. -/
def text : FrameStart → List UInt8
  | .stx _ text _ | .etx _ text _ => text
  | _ => []

/-- A byte that is wrong next. After `ETX` comes the check byte, which may be any. -/
def Wrong (ch : UInt8) : FrameStart → Prop
  | .soh => ¬ (ch = 82 ∨ ch = 81)
  | .opcode _ => ch ≠ chStx
  | .stx _ _ _ => isprint ch = false ∧ ch ≠ chEtx
  | .etx _ _ _ => False

/-- The check byte comes next. -/
def isEtx : FrameStart → Bool
  | .etx _ _ _ => true
  | _ => false

end FrameStart

/-- What there is from one `SOH` to the next: a well-formed frame, whose check byte is no `SOH` as
it is always `'L'`, and what follows it, as its `EOT` is not looked for; a frame with a wrong byte,
and what follows it; a frame that breaks off before the next `SOH`. -/
inductive DemoFrame
  | wellFormed (isRequest : Bool) (text : List UInt8) (htext : ∀ ch ∈ text, isprint ch = true)
      (lrc : UInt8) (hlrc : lrc ≠ chSoh) (gap : List UInt8) (hgap : chSoh ∉ gap)
  | malformed (start : FrameStart) (bad : UInt8) (hbad : start.Wrong bad) (hsoh : bad ≠ chSoh)
      (gap : List UInt8) (hgap : chSoh ∉ gap)
  | cutShort (start : FrameStart)

namespace DemoFrame

/-- The bytes after the `SOH`. -/
def rest : DemoFrame → List UInt8
  | .wellFormed isRequest text htext lrc _ gap _ =>
    (FrameStart.etx isRequest text htext).bytes ++ lrc :: gap
  | .malformed start bad _ _ gap _ => start.bytes ++ bad :: gap
  | .cutShort start => start.bytes

/-- The bytes of the frame. -/
def bytes (f : DemoFrame) : List UInt8 := chSoh :: f.rest

/-- The message of a well-formed frame. -/
def message : DemoFrame → Option (Bool × List UInt8)
  | .wellFormed isRequest text _ _ _ _ _ => some (isRequest, text)
  | _ => none

/-- What follows the `STX` of a frame. -/
theorem exists_rest_eq_stx (isRequest : Bool) {t : List UInt8} (ht : chSoh ∉ t) :
    ∃ f : DemoFrame, f.rest = opcodeByte isRequest :: chStx :: t := by
  have htext : ∀ ch ∈ t.takeWhile isprint, isprint ch = true := fun ch hch =>
    List.mem_takeWhile_imp hch
  have hsplit : t.takeWhile isprint ++ t.dropWhile isprint = t := List.takeWhile_append_dropWhile
  generalize t.takeWhile isprint = text at htext hsplit
  -- the body ends at the first character that is not printable
  cases hrest : t.dropWhile isprint with
  | nil =>
    rw [hrest, List.append_nil] at hsplit
    subst hsplit
    exact ⟨.cutShort (.stx isRequest text htext), rfl⟩
  | cons ch after =>
    have hprint : isprint ch = false := by
      have hnot := List.head_dropWhile_not isprint (hrest ▸ List.cons_ne_nil ch after)
      simpa [hrest] using hnot
    rw [hrest] at hsplit
    subst hsplit
    obtain ⟨-, hafter⟩ := not_or.mp fun h => ht (List.mem_append.mpr h)
    obtain ⟨hsoh, hmem⟩ := not_or.mp fun h => hafter (List.mem_cons.mpr h)
    by_cases hetx : ch = chEtx
    · subst hetx
      cases after with
      | nil => exact ⟨.cutShort (.etx isRequest text htext), rfl⟩
      | cons lrc gap =>
        obtain ⟨hlrc, hgap⟩ := not_or.mp fun h => hmem (List.mem_cons.mpr h)
        refine ⟨.wellFormed isRequest text htext lrc (Ne.symm hlrc) gap hgap, ?_⟩
        simp [rest, FrameStart.bytes]
    · exact ⟨.malformed (.stx isRequest text htext) ch ⟨hprint, hetx⟩ (Ne.symm hsoh) after hmem,
        rfl⟩

/-- What follows the opcode of a frame. -/
theorem exists_rest_eq_opcode (isRequest : Bool) {t : List UInt8} (ht : chSoh ∉ t) :
    ∃ f : DemoFrame, f.rest = opcodeByte isRequest :: t := by
  cases t with
  | nil => exact ⟨.cutShort (.opcode isRequest), rfl⟩
  | cons ch t =>
    obtain ⟨hsoh, hmem⟩ := not_or.mp fun h => ht (List.mem_cons.mpr h)
    by_cases hstx : ch = chStx
    · subst hstx
      exact exists_rest_eq_stx isRequest hmem
    · exact ⟨.malformed (.opcode isRequest) ch hstx (Ne.symm hsoh) t hmem, rfl⟩

/-- What stands between two `SOH` is a frame. -/
theorem exists_rest_eq {t : List UInt8} (ht : chSoh ∉ t) : ∃ f : DemoFrame, f.rest = t := by
  cases t with
  | nil => exact ⟨.cutShort .soh, rfl⟩
  | cons ch t =>
    obtain ⟨hsoh, hmem⟩ := not_or.mp fun h => ht (List.mem_cons.mpr h)
    by_cases hop : ch = 82 ∨ ch = 81
    · obtain ⟨isRequest, rfl⟩ : ∃ isRequest, ch = opcodeByte isRequest := by
        rcases hop with rfl | rfl
        · exact ⟨false, rfl⟩
        · exact ⟨true, rfl⟩
      exact exists_rest_eq_opcode isRequest hmem
    · exact ⟨.malformed .soh ch hop (Ne.symm hsoh) t hmem, rfl⟩

end DemoFrame

/-- Every stream is read so: frames, after what comes before the first `SOH`. -/
theorem exists_frames (s : List UInt8) :
    ∃ (lead : List UInt8) (frames : List DemoFrame), chSoh ∉ lead ∧
      s = lead ++ frames.flatMap DemoFrame.bytes := by
  induction s with
  | nil => exact ⟨[], [], List.not_mem_nil, rfl⟩
  | cons ch s ih =>
    obtain ⟨lead, frames, hlead, rfl⟩ := ih
    by_cases hsoh : chSoh = ch
    · obtain ⟨f, rfl⟩ := DemoFrame.exists_rest_eq hlead
      subst hsoh
      exact ⟨[], f :: frames, List.not_mem_nil, rfl⟩
    · refine ⟨ch :: lead, frames, fun h => ?_, rfl⟩
      rcases List.mem_cons.mp h with heq | hmem
      · exact hsoh heq
      · exact hlead hmem

namespace DemoEvent

/-- The messages among the events. -/
def messages (es : List DemoEvent) : List (Bool × List UInt8) :=
  es.filterMap fun
    | .message isRequest body => some (isRequest, body)
    | .error => none

/-- The number of errors reported. -/
def reports (es : List DemoEvent) : ℕ := es.count .error

end DemoEvent

/-- What the events are to be from after the `SOH` of a frame up to the next `SOH`: a well-formed
frame is delivered with its own flag and body; otherwise nothing is delivered, and at most one error
is reported. -/
def DemoFrame.Right (es : List DemoEvent) : DemoFrame → Prop
  | .wellFormed isRequest text _ _ _ _ _ => DemoEvent.messages es = [(isRequest, text)]
  | .malformed _ _ _ _ _ _ | .cutShort _ => DemoEvent.messages es = [] ∧ DemoEvent.reports es ≤ 1

/-- The events at the bytes after the first `SOH` are right for each frame. -/
def Resynchronises : List DemoFrame → List (List DemoEvent) → Prop
  | [], _ => True
  | f :: fs, es =>
    f.Right (es.take (f.rest.length + 1)).flatten ∧
      Resynchronises fs (es.drop (f.rest.length + 1))

/-! ### Where the buffers end -/

/-- How a frame is begun: its `SOH` was skipped, or it was taken up with an empty body. -/
structure Place where
  lost : Bool
  fresh : Bool
  deriving DecidableEq, Repr

/-- The number of buffers that end at these bytes and at the next `SOH`, if there is one. -/
def ends (marks : List Bool) (next : Option Bool) : ℕ :=
  marks.count true + next.toList.count true

namespace DemoFrame

/-- The number of buffers that end while the parser skips: from the wrong byte of the frame on, or
from its `SOH` on if that was skipped, up to the next `SOH`. -/
def skippedEnds (f : DemoFrame) (pl : Place) (marks : List Bool) (next : Option Bool) : ℕ :=
  if pl.lost then ends marks next
  else
    match f with
    | .malformed start _ _ _ _ _ => ends (marks.drop (start.bytes.length + 1)) next
    | .wellFormed _ _ _ _ _ _ _ | .cutShort _ => 0

/-- How the next frame is begun. -/
def place (f : DemoFrame) (pl : Place) (marks : List Bool) (next : Option Bool) : Place :=
  match f with
  | .wellFormed _ _ _ _ _ _ _ => ⟨false, true⟩
  | .malformed start _ _ _ _ _ => ⟨next = some true,
      f.skippedEnds pl marks next ≠ 0 ∨ pl.fresh ∧ (pl.lost ∨ start.text = [])⟩
  | .cutShort start => ⟨!pl.lost ∨ next = some true,
      f.skippedEnds pl marks next ≠ 0 ∨ pl.fresh ∧ (pl.lost ∨ start.text = [])⟩

/-- The frame is taken well: a well-formed one is begun with its `SOH` and an empty body; for any
other one at most one buffer ends while the parser skips, and it does not break off right where the
next `SOH` is taken for its check byte. -/
def TakenWell (f : DemoFrame) (pl : Place) (marks : List Bool) (next : Option Bool) : Prop :=
  match f with
  | .wellFormed _ _ _ _ _ _ _ => pl.lost = false ∧ pl.fresh = true
  | .malformed _ _ _ _ _ _ => f.skippedEnds pl marks next ≤ 1
  | .cutShort start => f.skippedEnds pl marks next ≤ 1 ∧
      (start.isEtx = true → pl.lost = true ∨ next = none)

instance TakenWell.decidable (f : DemoFrame) (pl : Place) (marks : List Bool)
    (next : Option Bool) : Decidable (f.TakenWell pl marks next) :=
  match f with
  | .wellFormed _ _ _ _ _ _ _ => inferInstanceAs (Decidable (pl.lost = false ∧ pl.fresh = true))
  | .malformed _ _ _ _ _ _ => inferInstanceAs (Decidable (_ ≤ 1))
  | .cutShort start =>
    inferInstanceAs (Decidable (_ ≤ 1 ∧ (start.isEtx = true → pl.lost = true ∨ next = none)))

end DemoFrame

/-- Every frame is taken well; `marks` says which of the bytes after the first `SOH` end a buffer.
-/
def Recovers : Place → List DemoFrame → List Bool → Prop
  | _, [], _ => True
  | pl, f :: fs, marks =>
    let own := marks.take f.rest.length
    let next := (marks.drop f.rest.length).head?
    f.TakenWell pl own next ∧ Recovers (f.place pl own next) fs (marks.drop (f.rest.length + 1))

instance Recovers.decidable :
    ∀ (pl : Place) (frames : List DemoFrame) (marks : List Bool),
      Decidable (Recovers pl frames marks)
  | _, [], _ => inferInstanceAs (Decidable True)
  | pl, f :: fs, marks =>
    have := Recovers.decidable
      (f.place pl (marks.take f.rest.length) (marks.drop f.rest.length).head?) fs
      (marks.drop (f.rest.length + 1))
    inferInstanceAs (Decidable (_ ∧ _))

/-! ### Runs of bytes -/

namespace DemoScanner

variable (isRequest : Bool) (body : List UInt8) {u : List (UInt8 × Bool)}

/-- The idle state waits for an `SOH`. -/
theorem scan_idle (hu : chSoh ∉ u.map Prod.fst) :
    (init.scan u).1 = init ∧ (init.scan u).2.flatten = [] := by
  induction u with
  | nil => exact ⟨rfl, rfl⟩
  | cons x u ih =>
    obtain ⟨hx, hu⟩ := not_or.mp fun h => hu (List.mem_cons.mpr h)
    have hstep : init.step x.2 x.1 = (init, []) := by
      simp only [step, init, if_neg (Ne.symm hx)]
    simp only [scan, hstep]
    exact ih hu

/-- The characters of a body. -/
theorem scan_text (hu : ∀ ch ∈ u.map Prod.fst, isprint ch = true) :
    ((⟨.body, isRequest, body⟩ : DemoScanner).scan u).1 =
        ⟨.body, isRequest, body ++ u.map Prod.fst⟩ ∧
      ((⟨.body, isRequest, body⟩ : DemoScanner).scan u).2.flatten = [] := by
  induction u generalizing body with
  | nil => exact ⟨by simp [scan], rfl⟩
  | cons x u ih =>
    obtain ⟨hx, hu⟩ := List.forall_mem_cons.mp hu
    have hstep : (⟨.body, isRequest, body⟩ : DemoScanner).step x.2 x.1 =
        (⟨.body, isRequest, body ++ [x.1]⟩, []) := by
      simp only [step, if_pos hx]
    obtain ⟨hs, hes⟩ := ih (body ++ [x.1]) hu
    simp only [scan, hstep, hs, List.flatten_cons, hes]
    simp

/-- Skipping: the buffers that end are reported, and the body is given up at the first. -/
theorem scan_skip (hu : chSoh ∉ u.map Prod.fst) :
    ∃ isRequest', ((⟨.errorRecovery, isRequest, body⟩ : DemoScanner).scan u).1 =
        ⟨.errorRecovery, isRequest', if (u.map Prod.snd).count true = 0 then body else []⟩ ∧
      ((⟨.errorRecovery, isRequest, body⟩ : DemoScanner).scan u).2.flatten =
        List.replicate ((u.map Prod.snd).count true) .error := by
  induction u generalizing isRequest body with
  | nil => exact ⟨isRequest, rfl, rfl⟩
  | cons x u ih =>
    obtain ⟨hx, hu⟩ := not_or.mp fun h => hu (List.mem_cons.mpr h)
    have hsoh : ¬ (x.1 = chSoh ∧ ¬ x.2 = true) := fun h => hx h.1.symm
    cases hend : x.2 with
    | true =>
      have hstep : (⟨.errorRecovery, isRequest, body⟩ : DemoScanner).step x.2 x.1 =
          (⟨.errorRecovery, false, []⟩, [.error]) := by
        simp only [step, if_neg hsoh, if_pos hend]
      obtain ⟨r, hs, hes⟩ := ih false [] hu
      refine ⟨r, ?_, ?_⟩
      · simp only [scan, hstep, hs]
        simp [hend]
      · simp only [scan, hstep, List.flatten_cons, hes]
        simp [hend, List.replicate_succ]
    | false =>
      have hnot : ¬ x.2 = true := by simp [hend]
      have hstep : (⟨.errorRecovery, isRequest, body⟩ : DemoScanner).step x.2 x.1 =
          (⟨.errorRecovery, isRequest, body⟩, []) := by
        simp only [step, if_neg hsoh, if_neg hnot]
      obtain ⟨r, hs, hes⟩ := ih isRequest body hu
      refine ⟨r, ?_, ?_⟩
      · simp only [scan, hstep, hs]
        simp [hend]
      · simp only [scan, hstep, List.flatten_cons, hes]
        simp [hend]

/-- The next `SOH`, if there is one, with its mark. -/
def nextSoh (next : Option Bool) : List (UInt8 × Bool) := next.toList.map fun mark => (chSoh, mark)

/-- The scanner begins a frame like this. -/
structure Stands (s : DemoScanner) (pl : Place) : Prop where
  state : s.state = if pl.lost then .errorRecovery else .opcode
  fresh : pl.fresh = true ↔ s.body = []

private theorem Stands.of_iff {s : DemoScanner} {lost lost' : Bool} {P Q : Prop} [Decidable P]
    [Decidable Q]
    (h : Stands s ⟨lost, P⟩) (hlost : lost' = lost) (hiff : Q ↔ P) : Stands s ⟨lost', Q⟩ := by
  subst hlost
  refine ⟨h.state, ?_⟩
  rw [← h.fresh, decide_eq_true_iff, decide_eq_true_iff, hiff]

/-- Skipping up to the next `SOH`: one that ends a buffer is skipped too. -/
theorem scan_skip_next (hu : chSoh ∉ u.map Prod.fst) (next : Option Bool) :
    ((⟨.errorRecovery, isRequest, body⟩ : DemoScanner).scan (u ++ nextSoh next)).2.flatten =
        List.replicate (ends (u.map Prod.snd) next) .error ∧
      ∀ mark, next = some mark →
        Stands ((⟨.errorRecovery, isRequest, body⟩ : DemoScanner).scan (u ++ nextSoh next)).1
          ⟨mark, ends (u.map Prod.snd) next ≠ 0 ∨ body = []⟩ := by
  obtain ⟨r, hs, hes⟩ := scan_skip isRequest body hu
  rw [scan_append, hs, List.flatten_append, hes]
  cases next with
  | none => exact ⟨by simp [nextSoh, scan, ends], nofun⟩
  | some mark =>
    cases mark with
    | true =>
      have hstep : ∀ body', (⟨.errorRecovery, r, body'⟩ : DemoScanner).scan
          (nextSoh (some true)) = (⟨.errorRecovery, false, []⟩, [[.error]]) := fun _ => rfl
      rw [hstep]
      refine ⟨?_, fun mark hmark => ?_⟩
      · simp [ends, List.replicate_succ']
      · cases hmark
        exact ⟨rfl, by simp [ends]⟩
    | false =>
      have hstep : ∀ body', (⟨.errorRecovery, r, body'⟩ : DemoScanner).scan
          (nextSoh (some false)) = (⟨.opcode, r, body'⟩, [[]]) := fun _ => rfl
      rw [hstep]
      refine ⟨by simp [ends], fun mark hmark => ?_⟩
      cases hmark
      refine ⟨rfl, ?_⟩
      by_cases hzero : (u.map Prod.snd).count true = 0
      · simp [ends, hzero]
      · simp [ends, hzero]

end DemoScanner

namespace FrameStart

/-- Nothing that is right is an `SOH`. -/
theorem soh_notMem_bytes (start : FrameStart) : chSoh ∉ start.bytes := by
  have hopcode : ∀ isRequest, chSoh ≠ opcodeByte isRequest := by decide
  have htext : ∀ text : List UInt8, (∀ ch ∈ text, isprint ch = true) → chSoh ∉ text :=
    fun text h hmem => absurd (h chSoh hmem) (by decide)
  have hstx : chSoh ≠ chStx := by decide
  have hetx : chSoh ≠ chEtx := by decide
  cases start with
  | soh => exact List.not_mem_nil
  | opcode isRequest => simp [bytes, hopcode]
  | stx isRequest text h => simp [bytes, hopcode, hstx, htext text h]
  | etx isRequest text h => simp [bytes, hopcode, hstx, hetx, htext text h]

end FrameStart

/-- The state that waits for the byte after these. -/
def FrameStart.state : FrameStart → DemoState
  | .soh => .opcode
  | .opcode _ => .stxWait
  | .stx _ _ _ => .body
  | .etx _ _ _ => .lrc

/-- The flag of the current message. -/
def FrameStart.flag (isRequest : Bool) : FrameStart → Bool
  | .soh => isRequest
  | .opcode isRequest | .stx isRequest _ _ | .etx isRequest _ _ => isRequest

namespace DemoScanner

variable (isRequest : Bool) (body : List UInt8) {u : List (UInt8 × Bool)}

/-- The opcode of a frame. -/
theorem step_opcodeByte (flag atEnd : Bool) :
    (⟨.opcode, isRequest, body⟩ : DemoScanner).step atEnd (opcodeByte flag) =
      (⟨.stxWait, flag, body⟩, []) := by
  cases flag with
  | true => rfl
  | false => rfl

/-- The opcode and `STX`, and characters of the body. -/
theorem scan_stx {flag : Bool} {text : List UInt8} (htext : ∀ ch ∈ text, isprint ch = true)
    (hu : u.map Prod.fst = opcodeByte flag :: chStx :: text) :
    ((⟨.opcode, isRequest, body⟩ : DemoScanner).scan u).1 = ⟨.body, flag, body ++ text⟩ ∧
      ((⟨.opcode, isRequest, body⟩ : DemoScanner).scan u).2.flatten = [] := by
  obtain ⟨⟨_, m₁⟩, v, rfl, rfl, hv⟩ := List.map_eq_cons_iff.mp hu
  obtain ⟨⟨_, m₂⟩, w, rfl, rfl, rfl⟩ := List.map_eq_cons_iff.mp hv
  obtain ⟨hs, hes⟩ := scan_text flag body htext
  have hstx : (⟨.stxWait, flag, body⟩ : DemoScanner).step m₂ chStx =
      (⟨.body, flag, body⟩, []) := rfl
  simp only [scan, step_opcodeByte, hstx]
  exact ⟨hs, hes⟩

/-- The bytes of a frame, as long as they are right. -/
theorem scan_start (start : FrameStart) (hu : u.map Prod.fst = start.bytes) :
    ((⟨.opcode, isRequest, body⟩ : DemoScanner).scan u).1 =
        ⟨start.state, start.flag isRequest, body ++ start.text⟩ ∧
      ((⟨.opcode, isRequest, body⟩ : DemoScanner).scan u).2.flatten = [] := by
  cases start with
  | soh =>
    cases List.map_eq_nil_iff.mp hu
    exact ⟨by simp [scan, FrameStart.state, FrameStart.flag, FrameStart.text], rfl⟩
  | opcode flag =>
    obtain ⟨⟨_, m⟩, v, rfl, rfl, hv⟩ := List.map_eq_cons_iff.mp hu
    cases List.map_eq_nil_iff.mp hv
    simp only [scan, step_opcodeByte]
    exact ⟨by simp [FrameStart.state, FrameStart.flag, FrameStart.text], rfl⟩
  | stx flag text htext => exact scan_stx isRequest body htext hu
  | etx flag text htext =>
    have hsplit : u.map Prod.fst = (opcodeByte flag :: chStx :: text) ++ [chEtx] := hu
    obtain ⟨v, w, rfl, hv, hw⟩ := List.map_eq_append_iff.mp hsplit
    obtain ⟨⟨_, m⟩, z, rfl, rfl, hz⟩ := List.map_eq_cons_iff.mp hw
    cases List.map_eq_nil_iff.mp hz
    obtain ⟨hs, hes⟩ := scan_stx isRequest body htext hv
    have hetx : (⟨.body, flag, body ++ text⟩ : DemoScanner).step m chEtx =
        (⟨.lrc, flag, body ++ text⟩, []) := rfl
    rw [scan_append, hs, List.flatten_append, hes]
    simp only [scan, hetx]
    exact ⟨rfl, rfl⟩

/-- A wrong byte is not reported. -/
theorem step_wrong (start : FrameStart) {ch : UInt8} (h : start.Wrong ch) (atEnd : Bool) :
    (⟨start.state, isRequest, body⟩ : DemoScanner).step atEnd ch =
      (⟨.errorRecovery, isRequest, body⟩, []) := by
  cases start with
  | soh => simp only [FrameStart.state, step, if_neg h]
  | opcode flag => simp only [FrameStart.state, step, if_neg h]
  | stx flag text htext =>
    have hprint : ¬ isprint ch = true := by simp [h.1]
    simp only [FrameStart.state, step, if_neg hprint, if_neg h.2]
  | etx flag text htext => exact absurd h id

/-- An `SOH` in the middle of a frame is a wrong byte. -/
theorem wrong_soh (start : FrameStart) (h : start.isEtx = false) : start.Wrong chSoh := by
  cases start with
  | soh => exact (by decide : ¬ (chSoh = 82 ∨ chSoh = 81))
  | opcode flag => exact (by decide : chSoh ≠ chStx)
  | stx flag text htext => exact (by decide : isprint chSoh = false ∧ chSoh ≠ chEtx)
  | etx flag text htext => cases h

/-! ### One frame -/

/-- A well-formed frame whose `SOH` was taken is delivered, with the body collected before it. -/
theorem scan_wellFormed {flag : Bool} {text : List UInt8} {htext : ∀ ch ∈ text, isprint ch = true}
    {lrc : UInt8} {gap : List UInt8} (hgap : chSoh ∉ gap)
    (hu : u.map Prod.fst = (FrameStart.etx flag text htext).bytes ++ lrc :: gap)
    (next : Option Bool) :
    ((⟨.opcode, isRequest, body⟩ : DemoScanner).scan (u ++ nextSoh next)).2.flatten =
        [.message flag (body ++ text)] ∧
      ∀ mark, next = some mark →
        Stands ((⟨.opcode, isRequest, body⟩ : DemoScanner).scan (u ++ nextSoh next)).1
          ⟨false, true⟩ := by
  obtain ⟨v, w, rfl, hv, hw⟩ := List.map_eq_append_iff.mp hu
  obtain ⟨⟨lrc, m⟩, z, rfl, rfl, rfl⟩ := List.map_eq_cons_iff.mp hw
  obtain ⟨hs, hes⟩ := scan_start isRequest body (.etx flag text htext) hv
  obtain ⟨hs', hes'⟩ := scan_idle hgap
  have hlrc : (⟨(FrameStart.etx flag text htext).state,
      (FrameStart.etx flag text htext).flag isRequest,
      body ++ (FrameStart.etx flag text htext).text⟩ : DemoScanner).step m lrc =
      (init, [.message flag (body ++ text)]) := rfl
  rw [List.append_assoc, scan_append, hs, List.flatten_append, hes]
  simp only [List.cons_append, scan, hlrc, scan_append, hs', List.flatten_cons,
    List.flatten_append, hes', List.nil_append, List.cons_append]
  cases next with
  | none => exact ⟨rfl, fun _ hmark => by cases hmark⟩
  | some mark => exact ⟨rfl, fun _ _ => ⟨rfl, iff_of_true rfl rfl⟩⟩

/-- A frame with a wrong byte, whose `SOH` was taken. -/
theorem scan_malformed {start : FrameStart} {bad : UInt8} (hbad : start.Wrong bad)
    {gap : List UInt8} (hgap : chSoh ∉ gap) (hu : u.map Prod.fst = start.bytes ++ bad :: gap)
    (next : Option Bool) :
    ((⟨.opcode, isRequest, body⟩ : DemoScanner).scan (u ++ nextSoh next)).2.flatten =
        List.replicate (ends ((u.map Prod.snd).drop (start.bytes.length + 1)) next) .error ∧
      ∀ mark, next = some mark →
        Stands ((⟨.opcode, isRequest, body⟩ : DemoScanner).scan (u ++ nextSoh next)).1
          ⟨mark, ends ((u.map Prod.snd).drop (start.bytes.length + 1)) next ≠ 0 ∨
            body ++ start.text = []⟩ := by
  obtain ⟨v, w, rfl, hv, hw⟩ := List.map_eq_append_iff.mp hu
  obtain ⟨⟨bad, m⟩, z, rfl, rfl, rfl⟩ := List.map_eq_cons_iff.mp hw
  have hlen : start.bytes.length = v.length := by rw [← hv, List.length_map]
  have hdrop : ((v ++ (bad, m) :: z).map Prod.snd).drop (start.bytes.length + 1) =
      z.map Prod.snd := by
    simp [hlen, List.drop_append]
  obtain ⟨hs, hes⟩ := scan_start isRequest body start hv
  rw [hdrop, List.append_assoc, scan_append, hs, List.flatten_append, hes]
  simp only [List.cons_append, scan, step_wrong _ _ start hbad, List.flatten_cons,
    List.nil_append]
  exact scan_skip_next _ _ hgap next

/-- A frame that breaks off, whose `SOH` was taken: the next `SOH` is lost, without a report. -/
theorem scan_cutShort {start : FrameStart} (hstart : start.isEtx = false)
    (hu : u.map Prod.fst = start.bytes) (next : Option Bool) :
    ((⟨.opcode, isRequest, body⟩ : DemoScanner).scan (u ++ nextSoh next)).2.flatten = [] ∧
      ∀ mark, next = some mark →
        Stands ((⟨.opcode, isRequest, body⟩ : DemoScanner).scan (u ++ nextSoh next)).1
          ⟨true, body ++ start.text = []⟩ := by
  obtain ⟨hs, hes⟩ := scan_start isRequest body start hu
  rw [scan_append, hs, List.flatten_append, hes]
  cases next with
  | none => exact ⟨rfl, nofun⟩
  | some mark =>
    have hwrong := step_wrong (start.flag isRequest) (body ++ start.text) start
      (wrong_soh start hstart) mark
    simp only [nextSoh, Option.toList_some, List.map_cons, List.map_nil, scan, hwrong]
    exact ⟨rfl, fun _ _ => ⟨rfl, decide_eq_true_iff⟩⟩

/-- A frame that breaks off after its `ETX` is delivered at the next `SOH`. -/
theorem scan_cutShort_etx {start : FrameStart} (hstart : start.isEtx = true)
    (hu : u.map Prod.fst = start.bytes) (next : Option Bool) :
    ((⟨.opcode, isRequest, body⟩ : DemoScanner).scan (u ++ nextSoh next)).2.flatten =
      next.toList.map fun _ => .message (start.flag isRequest) (body ++ start.text) := by
  obtain ⟨hs, hes⟩ := scan_start isRequest body start hu
  rw [scan_append, hs, List.flatten_append, hes]
  cases start with
  | etx flag text htext =>
    cases next with
    | none => rfl
    | some mark => rfl
  | _ => cases hstart

end DemoScanner

namespace DemoEvent

theorem messages_append (es es' : List DemoEvent) :
    messages (es ++ es') = messages es ++ messages es' := List.filterMap_append

@[simp]
theorem messages_replicate (n : ℕ) : messages (List.replicate n .error) = [] := by
  induction n with
  | zero => rfl
  | succ n ih => exact ih

@[simp]
theorem reports_replicate (n : ℕ) : reports (List.replicate n .error) = n :=
  List.count_replicate_self

end DemoEvent

namespace DemoFrame

open DemoScanner (Stands nextSoh)

variable {s : DemoScanner} {pl : Place} {f : DemoFrame} {u : List (UInt8 × Bool)}

private theorem soh_notMem_bytes_append (start : FrameStart) {ch : UInt8} (hch : ch ≠ chSoh)
    {gap : List UInt8}
    (hgap : chSoh ∉ gap) : chSoh ∉ start.bytes ++ ch :: gap := by
  intro h
  rcases List.mem_append.mp h with hstart | htail
  · exact FrameStart.soh_notMem_bytes start hstart
  · rcases List.mem_cons.mp htail with heq | hmem
    · exact hch heq.symm
    · exact hgap hmem

/-- The `SOH` that starts a frame is its only one. -/
theorem soh_notMem_rest (f : DemoFrame) : chSoh ∉ f.rest := by
  cases f with
  | wellFormed isRequest text htext lrc hlrc gap hgap => exact soh_notMem_bytes_append _ hlrc hgap
  | malformed start bad hbad hsoh gap hgap => exact soh_notMem_bytes_append start hsoh hgap
  | cutShort start => exact FrameStart.soh_notMem_bytes start

/-- What a frame comes to: it is right exactly if it is taken well, and then the next one is begun
as it should be. -/
def Settled (s : DemoScanner) (pl : Place) (f : DemoFrame) (u : List (UInt8 × Bool))
    (next : Option Bool) : Prop :=
  (f.Right (s.scan (u ++ nextSoh next)).2.flatten ↔ f.TakenWell pl (u.map Prod.snd) next) ∧
    (f.TakenWell pl (u.map Prod.snd) next → ∀ mark, next = some mark →
      Stands (s.scan (u ++ nextSoh next)).1 (f.place pl (u.map Prod.snd) next))

/-- A frame whose `SOH` was skipped. -/
theorem settled_of_lost {isRequest fresh : Bool} {body : List UInt8}
    (hfresh : fresh = true ↔ body = []) (hu : u.map Prod.fst = f.rest) (next : Option Bool) :
    Settled ⟨.errorRecovery, isRequest, body⟩ ⟨true, fresh⟩ f u next := by
  obtain ⟨hes, hstands⟩ := DemoScanner.scan_skip_next isRequest body
    (hu ▸ f.soh_notMem_rest) next
  unfold Settled
  rw [hes]
  cases f with
  | wellFormed flag text htext lrc hlrc gap hgap =>
    -- it is skipped, and so not delivered
    refine ⟨iff_of_false (fun h => ?_) nofun, nofun⟩
    rw [Right, DemoEvent.messages_replicate] at h
    cases h
  | malformed start bad hbad hsoh gap hgap =>
    refine ⟨?_, fun _ mark hmark => (hstands mark hmark).of_iff ?_ ?_⟩
    · simp [Right, TakenWell, skippedEnds]
    · simp [hmark]
    · simp [skippedEnds, hfresh]
  | cutShort start =>
    refine ⟨?_, fun _ mark hmark => (hstands mark hmark).of_iff ?_ ?_⟩
    · simp [Right, TakenWell, skippedEnds]
    · simp [hmark]
    · simp [skippedEnds, hfresh]

/-- A frame whose `SOH` was taken. -/
theorem settled_of_taken {isRequest fresh : Bool} {body : List UInt8}
    (hfresh : fresh = true ↔ body = []) (hu : u.map Prod.fst = f.rest) (next : Option Bool) :
    Settled ⟨.opcode, isRequest, body⟩ ⟨false, fresh⟩ f u next := by
  unfold Settled
  cases f with
  | wellFormed flag text htext lrc hlrc gap hgap =>
    obtain ⟨hes, hstands⟩ := DemoScanner.scan_wellFormed isRequest body hgap hu next
    rw [hes]
    refine ⟨?_, fun _ => hstands⟩
    simp [Right, DemoEvent.messages, TakenWell, hfresh]
  | malformed start bad hbad hsoh gap hgap =>
    obtain ⟨hes, hstands⟩ := DemoScanner.scan_malformed isRequest body hbad hgap hu next
    rw [hes]
    refine ⟨?_, fun _ mark hmark => (hstands mark hmark).of_iff ?_ ?_⟩
    · simp [Right, TakenWell, skippedEnds]
    · simp [hmark]
    · simp [skippedEnds, hfresh]
  | cutShort start =>
    cases hstart : start.isEtx with
    | false =>
      obtain ⟨hes, hstands⟩ := DemoScanner.scan_cutShort isRequest body hstart hu next
      rw [hes]
      refine ⟨?_, fun _ mark hmark => (hstands mark hmark).of_iff ?_ ?_⟩
      · simp [Right, TakenWell, skippedEnds, hstart, DemoEvent.messages, DemoEvent.reports]
      · simp
      · simp [skippedEnds, hfresh]
    | true =>
      -- the next `SOH` is the check byte, and the frame is delivered there
      have hes := DemoScanner.scan_cutShort_etx isRequest body hstart hu next
      rw [hes]
      cases next with
      | none => simp [Right, TakenWell, skippedEnds, DemoEvent.messages, DemoEvent.reports]
      | some mark => simp [Right, TakenWell, DemoEvent.messages, hstart]

/-- **One frame.** -/
theorem settled (h : Stands s pl) (hu : u.map Prod.fst = f.rest) (next : Option Bool) :
    Settled s pl f u next := by
  obtain ⟨lost, fresh⟩ := pl
  obtain ⟨state, isRequest, body⟩ := s
  obtain ⟨hstate, hfresh⟩ := h
  cases lost with
  | true =>
    cases hstate
    exact settled_of_lost hfresh hu next
  | false =>
    cases hstate
    exact settled_of_taken hfresh hu next

end DemoFrame

/-! ### All frames -/

private theorem tail_flatMap_bytes (f : DemoFrame) (fs : List DemoFrame) :
    ((f :: fs).flatMap DemoFrame.bytes).tail = f.rest ++ fs.flatMap DemoFrame.bytes := rfl

/-- **All frames**, from after the first `SOH` on. -/
theorem resynchronises_iff {s : DemoScanner} {pl : Place} {frames : List DemoFrame}
    {ms : List (UInt8 × Bool)} (h : s.Stands pl)
    (hms : ms.map Prod.fst = (frames.flatMap DemoFrame.bytes).tail) :
    Resynchronises frames (s.scan ms).2 ↔ Recovers pl frames (ms.map Prod.snd) := by
  induction frames generalizing s pl ms with
  | nil => exact Iff.rfl
  | cons f fs ih =>
    -- `u` is the bytes of the frame, `v` begins with the next `SOH`
    rw [tail_flatMap_bytes] at hms
    obtain ⟨u, v, rfl, hu, hv⟩ := List.map_eq_append_iff.mp hms
    have hlen : f.rest.length = u.length := by rw [← hu, List.length_map]
    cases fs with
    | nil =>
      cases List.map_eq_nil_iff.mp hv
      obtain ⟨hright, -⟩ := DemoFrame.settled h hu none
      have htake : (s.scan u).2.take (u.length + 1) = (s.scan u).2 :=
        List.take_of_length_le (by simp)
      have hown : (u.map Prod.snd).take u.length = u.map Prod.snd :=
        List.take_of_length_le (by simp)
      have hnext : ((u.map Prod.snd).drop u.length).head? = none := by
        simp
      simp only [Resynchronises, Recovers, hlen, List.append_nil, htake, hown, hnext, and_true]
      simpa [DemoScanner.nextSoh] using hright
    | cons g gs =>
      obtain ⟨⟨_, mark⟩, w, rfl, rfl, hw⟩ := List.map_eq_cons_iff.mp hv
      obtain ⟨hright, hstands⟩ := DemoFrame.settled h hu (some mark)
      have hsplit : u ++ (chSoh, mark) :: w = u ++ DemoScanner.nextSoh (some mark) ++ w := by
        simp [DemoScanner.nextSoh]
      have hfirst : (s.scan (u ++ DemoScanner.nextSoh (some mark))).2.length = u.length + 1 := by
        simp [DemoScanner.nextSoh]
      have hown : ((u ++ (chSoh, mark) :: w).map Prod.snd).take u.length = u.map Prod.snd := by
        simp
      have hnext : ((u ++ (chSoh, mark) :: w).map Prod.snd).drop u.length =
          mark :: w.map Prod.snd := by
        simp
      have hlater : ((u ++ (chSoh, mark) :: w).map Prod.snd).drop (u.length + 1) =
          w.map Prod.snd := by
        rw [← List.drop_drop, hnext, List.drop_succ_cons, List.drop_zero]
      have hes : (s.scan (u ++ (chSoh, mark) :: w)).2 =
          (s.scan (u ++ DemoScanner.nextSoh (some mark))).2 ++
            ((s.scan (u ++ DemoScanner.nextSoh (some mark))).1.scan w).2 := by
        rw [hsplit, DemoScanner.scan_append]
      rw [Resynchronises, Recovers, hlen, hown, hnext, hlater, hes, ← hfirst,
        List.take_left, List.drop_left, hright]
      exact and_congr_right fun hwell => ih (hstands hwell mark rfl) hw

/-- Events that are right for each frame deliver the well-formed frames, and nothing else. -/
theorem Resynchronises.messages {frames : List DemoFrame} {es : List (List DemoEvent)}
    (h : Resynchronises frames es)
    (hlen : es.length ≤ (frames.flatMap DemoFrame.bytes).tail.length) :
    DemoEvent.messages es.flatten = frames.filterMap DemoFrame.message := by
  induction frames generalizing es with
  | nil =>
    cases List.length_eq_zero_iff.mp (Nat.le_zero.mp hlen)
    rfl
  | cons f fs ih =>
    obtain ⟨hright, hlater⟩ := h
    have hfirst : DemoEvent.messages (es.take (f.rest.length + 1)).flatten = f.message.toList := by
      cases f with
      | wellFormed isRequest text htext lrc hlrc gap hgap => exact hright
      | malformed start bad hbad hsoh gap hgap => exact hright.1
      | cutShort start => exact hright.1
    have hdrop : (es.drop (f.rest.length + 1)).length ≤
        (fs.flatMap DemoFrame.bytes).tail.length := by
      rw [tail_flatMap_bytes, List.length_append] at hlen
      rw [List.length_drop, List.length_tail]
      omega
    calc DemoEvent.messages es.flatten
        = DemoEvent.messages (es.take (f.rest.length + 1)).flatten ++
            DemoEvent.messages (es.drop (f.rest.length + 1)).flatten := by
          rw [← DemoEvent.messages_append, ← List.flatten_append, List.take_append_drop]
      _ = f.message.toList ++ fs.filterMap DemoFrame.message := by rw [hfirst, ih hlater hdrop]
      _ = (f :: fs).filterMap DemoFrame.message := by
          cases hm : f.message with
          | none => simp [hm]
          | some m => simp [hm]

open DemoScanner (init) in
/-- **A whole stream**: nothing happens before the first frame, and it is begun as it should be. -/
theorem resynchronises_iff_of_lead {lead : List UInt8} {frames : List DemoFrame}
    {ms : List (UInt8 × Bool)} (hlead : chSoh ∉ lead)
    (hms : ms.map Prod.fst = lead ++ frames.flatMap DemoFrame.bytes) :
    ((init.scan ms).2.take (lead.length + 1)).flatten = [] ∧
      (Resynchronises frames ((init.scan ms).2.drop (lead.length + 1)) ↔
        Recovers ⟨false, true⟩ frames ((ms.map Prod.snd).drop (lead.length + 1))) := by
  obtain ⟨u, v, rfl, rfl, hv⟩ := List.map_eq_append_iff.mp hms
  obtain ⟨hs, hes⟩ := DemoScanner.scan_idle hlead
  rw [DemoScanner.scan_append, hs]
  cases frames with
  | nil =>
    cases List.map_eq_nil_iff.mp hv
    refine ⟨?_, Iff.rfl⟩
    rw [List.take_of_length_le (by simp), List.flatten_append, hes]
    rfl
  | cons f fs =>
    obtain ⟨⟨_, mark⟩, w, rfl, rfl, hw⟩ := List.map_eq_cons_iff.mp hv
    have hstands : DemoScanner.Stands ⟨.opcode, false, []⟩ ⟨false, true⟩ :=
      ⟨rfl, iff_of_true rfl rfl⟩
    have hmarks : ((u ++ (chSoh, mark) :: w).map Prod.snd).drop ((u.map Prod.fst).length + 1) =
        w.map Prod.snd := by
      simp [List.drop_append]
    have hafter : (init.scan ((chSoh, mark) :: w)).2 =
        [] :: ((⟨.opcode, false, []⟩ : DemoScanner).scan w).2 := rfl
    have hall : (init.scan u).2.take ((u.map Prod.fst).length + 1) = (init.scan u).2 :=
      List.take_of_length_le (by simp)
    have hnone : (init.scan u).2.drop ((u.map Prod.fst).length + 1) = [] :=
      List.drop_eq_nil_of_le (by simp)
    have htail : w.map Prod.fst = ((f :: fs).flatMap DemoFrame.bytes).tail := hw
    rw [hafter, hmarks, List.take_append, List.drop_append, hall, hnone]
    refine ⟨by simp [hes], ?_⟩
    simpa using resynchronises_iff hstands htail

namespace DemoParser

/-- The bytes of the buffers, each with whether it is the last one of its buffer. -/
def cut (bufs : List IOBuffer) : List (UInt8 × Bool) := bufs.flatMap fun b => marked b.data

/-- The buffers are presented one after another. Nothing happens before the first frame, the calls
made at the bytes of each frame are right, and so the messages delivered are those of the
well-formed frames, wherever the buffers were cut. -/
def Resynchronised (heap : DemoHeap) (fuel : ℕ) (bufs : List IOBuffer) (lead : List UInt8)
    (frames : List DemoFrame) : Prop :=
  ∃ r p cs es, feed fuel ⟨new heap, [], []⟩ bufs = .ok (some r) ∧
    (new heap).trace (cut bufs) = .ok (p, cs) ∧ r.calls = cs.flatten ∧
    es = cs.map (List.map DemoCall.event) ∧ (es.take (lead.length + 1)).flatten = [] ∧
    Resynchronises frames (es.drop (lead.length + 1)) ∧
    DemoEvent.messages (r.calls.map DemoCall.event) = frames.filterMap DemoFrame.message

private theorem map_fst_cut (bufs : List IOBuffer) :
    (cut bufs).map Prod.fst = bufs.flatMap IOBuffer.data := by
  rw [cut, List.map_flatMap]
  exact List.flatMap_congr fun b _ => map_fst_marked b.data

/-- The scanner tells what the parser does. -/
theorem resynchronised_iff_scan (heap : DemoHeap) {fuel : ℕ} {bufs : List IOBuffer}
    (hbufs : ∀ b ∈ bufs, b.Holds b.data) (hfuel : ∀ b ∈ bufs, b.dataLen ≤ fuel)
    (lead : List UInt8) (frames : List DemoFrame) :
    Resynchronised heap fuel bufs lead frames ↔
      ((DemoScanner.init.scan (cut bufs)).2.take (lead.length + 1)).flatten = [] ∧
      Resynchronises frames ((DemoScanner.init.scan (cut bufs)).2.drop (lead.length + 1)) ∧
      DemoEvent.messages (DemoScanner.init.scan (cut bufs)).2.flatten =
        frames.filterMap DemoFrame.message := by
  obtain ⟨q, cs, htrace, -, hes⟩ := (new_represents heap).trace (cut bufs)
  obtain ⟨r, hfeed, -, hcalls⟩ :=
    feed_of_trace (r := ⟨new heap, [], []⟩) htrace hbufs hfuel
  have hevents : r.calls.map DemoCall.event = (DemoScanner.init.scan (cut bufs)).2.flatten := by
    rw [hcalls, List.nil_append, List.map_flatten, hes]
  constructor
  · rintro ⟨r', p', cs', es', hfeed', htrace', hcalls', rfl, hrest⟩
    cases hfeed.symm.trans hfeed'
    cases htrace.symm.trans htrace'
    rwa [hevents, hes] at hrest
  · rintro h
    refine ⟨r, q, cs, _, hfeed, htrace, hcalls, rfl, ?_⟩
    rwa [hevents, hes]

/-- **Error recovery.** Whatever the buffers hold is frames, after what comes before the first
`SOH`, and the parser resynchronises exactly if every frame is taken well. -/
theorem resynchronised_iff_recovers (heap : DemoHeap) {fuel : ℕ} {bufs : List IOBuffer}
    (hbufs : ∀ b ∈ bufs, b.Holds b.data) (hfuel : ∀ b ∈ bufs, b.dataLen ≤ fuel) :
    (∃ (lead : List UInt8) (frames : List DemoFrame), chSoh ∉ lead ∧
      bufs.flatMap IOBuffer.data = lead ++ frames.flatMap DemoFrame.bytes) ∧
    ∀ (lead : List UInt8) (frames : List DemoFrame), chSoh ∉ lead →
      bufs.flatMap IOBuffer.data = lead ++ frames.flatMap DemoFrame.bytes →
      (Resynchronised heap fuel bufs lead frames ↔
        Recovers ⟨false, true⟩ frames (((cut bufs).map Prod.snd).drop (lead.length + 1))) := by
  refine ⟨exists_frames _, fun lead frames hlead hcut => ?_⟩
  have hms : (cut bufs).map Prod.fst = lead ++ frames.flatMap DemoFrame.bytes :=
    (map_fst_cut bufs).trans hcut
  obtain ⟨hsilent, hiff⟩ := resynchronises_iff_of_lead hlead hms
  rw [resynchronised_iff_scan heap hbufs hfuel, ← hiff]
  refine ⟨fun h => h.2.1, fun h => ⟨hsilent, h, ?_⟩⟩
  have hlen : (cut bufs).length = lead.length + (frames.flatMap DemoFrame.bytes).length := by
    rw [← List.length_map Prod.fst, hms, List.length_append]
  have hmessages := h.messages (by
    rw [List.length_drop, DemoScanner.length_scan, List.length_tail, hlen]
    omega)
  have hall : (DemoScanner.init.scan (cut bufs)).2.flatten =
      ((DemoScanner.init.scan (cut bufs)).2.drop (lead.length + 1)).flatten := by
    conv_lhs => rw [← List.take_append_drop (lead.length + 1)
      (DemoScanner.init.scan (cut bufs)).2, List.flatten_append, hsilent, List.nil_append]
  rw [hall, hmessages]

/-- A request with a NUL in its body. -/
def brokenRequest (gap : List UInt8) (hgap : chSoh ∉ gap) : DemoFrame :=
  .malformed (.stx true [97] (List.forall_mem_singleton.mpr rfl)) 0 ⟨rfl, by decide⟩ (by decide)
    gap hgap

/-- A response. -/
def goodResponse : DemoFrame :=
  .wellFormed false [98] (List.forall_mem_singleton.mpr rfl) 76 (by decide) [4] (by decide)

/-- The buffer ends while the parser skips, once, and the response starts the next buffer. -/
theorem resynchronised_next_buffer :
    ∃ b₁ b₂, IOBuffer.fromBuf (fun _ => 0) [1, 81, 2, 97, 0, 0] = .ok b₁ ∧
      IOBuffer.fromBuf (fun _ => 0) [1, 82, 2, 98, 3, 76, 4] = .ok b₂ ∧
      Resynchronised ⟨0, fun _ => 0⟩ 7 [b₁, b₂] []
        [brokenRequest [0] (by decide), goodResponse] := by
  obtain ⟨b₁, h₁, hb₁⟩ :=
    IOBuffer.fromBuf_spec (fun _ => 0) (List.cons_ne_nil 1 [81, 2, 97, 0, 0])
  obtain ⟨b₂, h₂, hb₂⟩ :=
    IOBuffer.fromBuf_spec (fun _ => 0) (List.cons_ne_nil 1 [82, 2, 98, 3, 76, 4])
  have hholds : ∀ b ∈ [b₁, b₂], b.Holds b.data := by
    simp only [List.forall_mem_cons, hb₁.data_eq, hb₂.data_eq]
    exact ⟨hb₁, hb₂, nofun⟩
  have hfuel : ∀ b ∈ [b₁, b₂], b.dataLen ≤ 7 := by
    have hlen₁ : b₁.dataLen = 6 := hb₁.remaining
    have hlen₂ : b₂.dataLen = 7 := hb₂.remaining
    simp only [List.forall_mem_cons, hlen₁, hlen₂]
    exact ⟨by decide, by decide, nofun⟩
  refine ⟨b₁, b₂, h₁, h₂,
    ((resynchronised_iff_recovers _ hholds hfuel).2 _ _ List.not_mem_nil ?_).mpr ?_⟩
  · simp only [List.flatMap_cons, List.flatMap_nil, hb₁.data_eq, hb₂.data_eq]
    rfl
  · simp only [cut, List.flatMap_cons, List.flatMap_nil, hb₁.data_eq, hb₂.data_eq]
    decide

/-- The response comes in the buffer of the broken request: it is delivered with the body of both.
-/
theorem not_resynchronised_same_buffer :
    ∃ b, IOBuffer.fromBuf (fun _ => 0) [1, 81, 2, 97, 0, 1, 82, 2, 98, 3, 76, 4] = .ok b ∧
      b.data = [brokenRequest [] List.not_mem_nil, goodResponse].flatMap DemoFrame.bytes ∧
      ¬ Resynchronised ⟨0, fun _ => 0⟩ 12 [b] []
        [brokenRequest [] List.not_mem_nil, goodResponse] := by
  obtain ⟨b, h, hb⟩ := IOBuffer.fromBuf_spec (fun _ => 0)
    (List.cons_ne_nil 1 [81, 2, 97, 0, 1, 82, 2, 98, 3, 76, 4])
  have hholds : ∀ b' ∈ [b], b'.Holds b'.data :=
    List.forall_mem_singleton.mpr (hb.data_eq.symm ▸ hb)
  have hfuel : ∀ b' ∈ [b], b'.dataLen ≤ 12 :=
    List.forall_mem_singleton.mpr (Nat.le_of_eq hb.remaining)
  refine ⟨b, h, hb.data_eq, fun hr => ?_⟩
  obtain ⟨-, -, hmessages⟩ := (resynchronised_iff_scan _ hholds hfuel _ _).mp hr
  simp only [cut, List.flatMap_cons, List.flatMap_nil, hb.data_eq] at hmessages
  have hdelivered : DemoEvent.messages
      (DemoScanner.init.scan (marked [1, 81, 2, 97, 0, 1, 82, 2, 98, 3, 76, 4] ++ [])).2.flatten =
      [(false, [97, 98])] := by decide
  exact absurd (hdelivered.symm.trans hmessages) (by decide)

end DemoParser

end CHttp
