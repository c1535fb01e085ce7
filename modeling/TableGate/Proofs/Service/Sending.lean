import TableGate.Proofs.Failure
import TableGate.Proofs.NameMap
import TableGate.Service.Session

/-! # Statements on their way

A statement takes the next answer of the database. It is sent unless the answer is that the database cannot be
reached, and nothing but the pool of its connection is touched. -/

namespace TableGate

namespace Reply

/-- The statement has come to the database. -/
def reached : Reply → Bool
  | .unreachable _ => false
  | _ => true

theorem settled_cases (r : Reply) : r.settled = .ok () ∧ r.reached = true ∨
    ∃ refusal, r.settled = .error refusal.fault ∧ (r = .refused refusal ∨ r = .unreachable refusal) := by
  cases r with
  | refused refusal => exact .inr ⟨refusal, rfl, .inl rfl⟩
  | unreachable refusal => exact .inr ⟨refusal, rfl, .inr rfl⟩
  | _ => exact .inl ⟨rfl, rfl⟩

end Reply

namespace Session

variable {s : Session} {c : Connection} {α : Type}

/-- The answer to the statement that is sent behind some others. -/
def reply (s : Session) (position : ℕ) : Reply :=
  s.replies[position]?.getD noReply

/-! ## Sending -/

theorem send_fst (s : Session) (c : Connection) (statement : Statement) :
    (s.send c statement).1 = s.reply 0 := by
  rw [reply, ← List.head?_eq_getElem?, send]
  split <;> rfl

theorem send_replies (s : Session) (c : Connection) (statement : Statement) :
    (s.send c statement).2.replies = s.replies.tail := by
  rw [send]
  split <;> rfl

theorem send_service (s : Session) (c : Connection) (statement : Statement) :
    (s.send c statement).2.service = s.service := by
  rw [send]
  split <;> rfl

theorem send_unreachable {refusal : Refusal} (h : s.reply 0 = .unreachable refusal) (c : Connection)
    (statement : Statement) : (s.send c statement).2 = { s with replies := s.replies.tail } := by
  rw [reply, ← List.head?_eq_getElem?] at h
  rw [send, h]

theorem send_sent (h : (s.reply 0).reached = true) (c : Connection) (statement : Statement) :
    (s.send c statement).2.sent = s.sent ++ [(c.name, statement)] := by
  rw [reply, ← List.head?_eq_getElem?] at h
  rw [send]
  split
  · rename_i hunreachable
    rw [hunreachable] at h
    cases h
  · rfl
  · rfl

/-- The pools of other connections stay as they are. -/
theorem send_pool_of_ne {name : String} (hname : name ≠ c.name) (s : Session) (statement : Statement) :
    (s.send c statement).2.pools.get? name = s.pools.get? name := by
  rw [send]
  split
  · rfl
  · exact (NameMap.get?_insert ..).trans (if_neg hname)
  · exact (NameMap.get?_insert ..).trans (if_neg hname)

theorem perform_ok (s : Session) (p : Prepared α) :
    s.perform (.ok p) = (p.read (s.reply 0), (s.send p.connection p.statement).2) :=
  Prod.ext (congrArg p.read (s.send_fst ..)) rfl

/-- A prepared statement is sent, or it does not come to its database. -/
theorem perform_cases (s : Session) (p : Prepared α) :
    (∃ refusal, s.reply 0 = .unreachable refusal ∧
      s.perform (.ok p) = (p.read (.unreachable refusal), { s with replies := s.replies.tail })) ∨
    (s.perform (.ok p)).2.sent = s.sent ++ [(p.connection.name, p.statement)] := by
  rw [perform_ok]
  cases hreply : s.reply 0 with
  | unreachable refusal => exact .inl ⟨refusal, rfl, Prod.ext rfl (send_unreachable hreply _ _)⟩
  | _ => exact .inr (send_sent (by rw [hreply]; rfl) _ _)

/-! ## Opening pools -/

/-- The pool of the connection is not open, and cannot be opened. -/
def CutOff (s : Session) (c : Connection) (refusal : Refusal) : Prop :=
  s.pools.get? c.name = none ∧ s.replies.head? = some (.unreachable refusal)

theorem connect_cutOff {refusal : Refusal} (h : s.CutOff c refusal) :
    s.connect c = (.error refusal.fault, { s with replies := s.replies.tail }) := by
  rw [connect, h.1, h.2]

theorem connect_open (h : ∀ refusal, ¬s.CutOff c refusal) :
    s.connect c = (.ok (), { s with pools := s.pools.insert c.name (s.pool c) }) := by
  rw [connect]
  split
  · rename_i refusal hpool hreply
    exact absurd ⟨hpool, hreply⟩ (h refusal)
  · rfl

theorem cutOff_or_open (s : Session) (c : Connection) :
    (∃ refusal, s.CutOff c refusal) ∨ ∀ refusal, ¬s.CutOff c refusal := by
  rw [← not_exists]
  exact Classical.em _

end Session

end TableGate
