import Rdt.Saw.Idle
import Rdt.Saw.Sending

/-! # How an exception ends an end -/

namespace Rdt

namespace Client

variable {cfg : Config} {c : Client} {ev : Event}

/-- The thread has ended; but for the cleanup the client is as it was. -/
structure EndsFrom (c c' : Client) : Prop where
  point : c'.point = .ended
  pieces : c'.file.pieces = c.file.pieces
  reports : c'.reports = c.reports

theorem endsFrom_cleanup (cfg : Config) {d : Client} (hpieces : d.file.pieces = c.file.pieces)
    (hreports : d.reports = c.reports) : EndsFrom c (fileCleanupAfterError cfg d).finish := by
  unfold fileCleanupAfterError
  split <;> exact ⟨rfl, hpieces, hreports⟩

/-- The wait in the `except` clauses goes on, or the client ends. -/
theorem step_exceptClause (hp : c.point = .handleConnectionFinalization .exceptClause)
    (cfg : Config) (ev : Event) :
    (∃ l b, step cfg c ev = stirred c l b) ∨ EndsFrom c (step cfg c ev) := by
  simp only [step, onEvent, hp, Client.listen]
  split
  · rename_i l b _
    refine .inl ⟨l, b, ?_⟩
    simp only [swallow, retransmit, List.nil_append, stirred, hp]
  · exact .inr (endsFrom_cleanup cfg rfl rfl)
  · unfold onFinalization
    dsimp only
    split
    · exact .inr (endsFrom_cleanup cfg rfl rfl)
    · exact .inr ⟨rfl, rfl, rfl⟩

theorem handle_error_closes {e : Exn} (he : closesConnection cfg e.cls = true) (now : Time) :
    handle cfg now (.error (e, c)) =
      swallow (handleConnectionFinalization cfg now .exceptClause c.stepSequence.stepAck) := by
  simp only [handle, he, if_true]

/-- An exception that does not make the client close the connection ends it. -/
theorem handle_error_ends {e : Exn} (he : closesConnection cfg e.cls = false) (now : Time) :
    EndsFrom c (handle cfg now (.error (e, c))) ∧
      (handle cfg now (.error (e, c))).outbox = c.outbox := by
  simp only [handle, he, Bool.false_eq_true, if_false]
  refine ⟨endsFrom_cleanup cfg rfl rfl, ?_⟩
  unfold fileCleanupAfterError
  split <;> rfl

end Client

namespace Server.ClientConnection

variable {cfg : Config} {c : ClientConnection}

theorem handle_closing (now : Time) (c : ClientConnection) :
    handle cfg now (raise c .connectionClosingNeeded) = initiateCloseConnection cfg now c := rfl

/-- All that was handed over is one packet. -/
theorem sends_handed (hout : c.outbox = []) {p : Bytes → Prop} {raw : Bytes} (hraw : p raw) :
    Saw.Sends p ((handed cfg c raw).outbox.to cfg.clientAddress) := by
  rw [handed, hout, List.nil_append, Outbox.to_cons_self]
  exact ⟨raw, hraw, rfl⟩

end Server.ClientConnection

end Rdt
