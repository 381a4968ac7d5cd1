import CHttp.Async.EchoServer
import CHttp.Sync.Verifier

/-!
# Clients of the asynchronous echo server

What a client sees that makes its requests with `message.h` and sends them to the server of
`EchoServer`: the response to a request for `/echo` has as its body the very bytes that the client
sent, and its echo id (`echoes_what_was_sent`). Requests that end in one buffer with a later one
are lost, so the answers are to some of the requests.
-/

namespace CHttp

namespace World

variable {L : Llhttp} {heap : Heap} {memory : ByteMemory} {ms : List Message} {bs : List UInt8}
  {junk : ByteMemory}

/-- The socket has accepted the answers to some of the requests sent, in order, the last perhaps in
part. -/
def EchoesSent (ms : List Message) (w : World L) : Prop :=
  ∃ sent bodies, sent.Sublist ms ∧ sent.length = w.handed.length ∧
    List.Forall₂ Message.AnswerBody sent bodies ∧
    w.wire <+: (List.zipWith Message.answerBytes sent bodies).flatten ∧
    (w.cref.readState = .eagained →
      w.wire = (List.zipWith Message.answerBytes sent bodies).flatten)

private theorem KeptByServer.echoesSent {w : World L} (h : w.KeptByServer heap memory)
    (hms : ∀ m ∈ ms, m.Transparent) (hsend : Message.sendAll junk ms = .ok bs)
    (hL : L.ReportsStream bs) (hin : w.received.flatten <+: bs) : w.EchoesSent ms := by
  obtain ⟨bodies, hbodies, hpre, hall⟩ := h.echoes.bytes
  obtain ⟨⟨_, st, hst, hl, hp, ds, hf, hsub⟩, -⟩ := h
  have hdel : HttpParser.delivered heap memory (L.reports L.init w.received).2 = .ok ds := by
    rw [HttpParser.delivered, hf.parser]
    rfl
  obtain ⟨n, harrive⟩ := arrives_of_reportsStream hms hsend hL hf.chunks hin hdel
  -- some of the requests that arrived were handed over
  obtain ⟨sent, hsent, hpairs⟩ :=
    List.exists_sublist_of_forall₂ harrive ((List.sublist_append_left _ _).trans hsub)
  obtain ⟨hanswers, heq⟩ := Message.forall₂_answerBody hpairs hbodies
  rw [heq] at hpre hall
  exact ⟨sent, bodies, hsent.trans (List.take_sublist _ _), hpairs.length_eq, hanswers, hpre, hall⟩

/-- **What the client sent comes back.** A client sends requests that the grammar can carry and
that announce their bodies, on a connection of the echo server. In every state of every run, as long
as nothing else was received: the socket has accepted the answers to requests among them, in order,
each with the bytes of that request for its body if the request was for `/echo`. -/
theorem echoes_what_was_sent (heap : Heap) (memory : ByteMemory) (hms : ∀ m ∈ ms, m.Transparent)
    (hsend : Message.sendAll junk ms = .ok bs) (hL : L.ReportsStream bs) (as : List ServerAct) :
    Machine.Always serverStep (fun w => w.received.flatten <+: bs → w.EchoesSent ms)
      (init L heap memory) as := by
  have hinit : (init L heap memory).KeptByServer heap memory :=
    ⟨⟨[], kept_init L heap memory⟩, rfl, .nil⟩
  exact (Machine.always_invariant keptByServer_step hinit).mono fun w h =>
    h.echoesSent hms hsend hL

/-- The two requests arrive in three pieces, and each response goes out at once. -/
def verifyRun : List ServerAct :=
  let io (recv : RecvResult) : Io := ⟨0, recv, .accepted 1000, Message.new .zeros, true⟩
  let run (recv : RecvResult) : ServerAct := .run (io recv) .zeros ⟨ascii "now", 7, 1⟩
  let first := verifyText false
  let second := verifyText true
  [.accept (io (.got (first.take 20))), run (.got (first.drop 20 ++ second.take 20)),
    run (.fail eagain), run (.fail eagain), run (.got (second.drop 20)), run (.fail eagain),
    run (.fail eagain), run (.fail eagain)]

theorem echoes_what_was_sent_verify : ∃ m m',
    Message.makeRequest .zeros (ascii "/echo") (Message.makeUid 0 0 0) true = .ok m ∧
      Message.makeRequest .zeros (ascii "/echo") (Message.makeUid 0 0 1) false = .ok m' ∧
      Machine.Always serverStep (fun w => w.received.flatten <+: verifyTexts → w.EchoesSent [m, m'])
        (init verifyParser (.const .zeros) fun _ => 0) verifyRun ∧
      (Machine.run serverStep (init verifyParser (.const .zeros) fun _ => 0) verifyRun).map
        (fun w => (w.handed.length, w.answers.length)) = .ok (2, 2) := by
  obtain ⟨m, m', hm, hm', hms, hsend⟩ := sendAll_verifyTexts
  refine ⟨m, m', hm, hm', ?_, by decide +kernel⟩
  exact echoes_what_was_sent _ _ hms hsend reportsStream_verifyTexts _

end World

end CHttp
