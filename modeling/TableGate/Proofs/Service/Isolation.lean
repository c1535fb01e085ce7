import TableGate.Proofs.Service.SideBySide

/-! # Connections do not see each other

The calls on a service, one after the other, are on any number of connections. What is answered to the calls on one
of them, what is sent to its database, and what is remembered about its tables depend only on those calls, on the
keys that are added, and on the answers of its own database. -/

namespace TableGate

/-- A service among its databases: the answers that each of them will give, the statements that have been sent, and
the pools that have been opened. -/
structure World where
  service : Service
  answers : String → List Reply
  sent : List (String × Statement) := []
  pools : NameMap Pool := .empty

/-- A call that was made, and what it was answered with, unless it panicked. -/
structure Event where
  call : Call
  answer : Option (Except Fault Answer)

namespace Call

/-- The call is on the connection, or on all of them. -/
def concerns (connection : String) (c : Call) : Bool :=
  match c.connection? with
  | none => true
  | some name => name == connection

variable {c : Call} {connection : String}

theorem concerns_eq_true :
    c.concerns connection = true ↔ ∀ name, c.connection? = some name → name = connection := by
  rw [concerns]
  cases c.connection? <;> simp

theorem concerns_eq_false :
    c.concerns connection = false ↔ ∃ name, c.connection? = some name ∧ name ≠ connection := by
  rw [concerns]
  cases c.connection? <;> simp

end Call

namespace World

/-- The service as it works for a connection, whose database answers. -/
def session (w : World) (connection : Option String) : Session :=
  ⟨w.service, (connection.map w.answers).getD [], w.sent, w.pools⟩

/-- The world after the service has worked for a connection. -/
def after (w : World) (connection : Option String) (s : Session) : World :=
  ⟨s.service, fun name => if connection = some name then s.replies else w.answers name, s.sent, s.pools⟩

def step (w : World) (c : Call) : Event × World :=
  let (answer, s) := (w.session c.connection?).call c
  (⟨c, answer⟩, w.after c.connection? s)

/-- Makes calls one after the other. -/
def run (w : World) : List Call → List Event × World
  | [] => ([], w)
  | c :: calls =>
    let (event, w) := w.step c
    let (events, w) := w.run calls
    (event :: events, w)

theorem run_cons (w : World) (c : Call) (calls : List Call) :
    w.run (c :: calls) =
      ((w.step c).1 :: ((w.step c).2.run calls).1, ((w.step c).2.run calls).2) :=
  rfl

/-- What a connection can see of a run: the answers to the calls that concern it, the statements that its database
has been sent, the answers that this has still to give, what is found under its name, the counts of its pool, what
is remembered about its tables, and the keys. -/
structure SameView (x y : List Event × World) (connection : String) : Prop where
  events : x.1.filter (·.call.concerns connection) = y.1.filter (·.call.concerns connection)
  sent : (x.2.sent.filter fun entry => entry.1 == connection) =
    y.2.sent.filter fun entry => entry.1 == connection
  answers : x.2.answers connection = y.2.answers connection
  found : x.2.service.registry.find? connection = y.2.service.registry.find? connection
  pool : x.2.pools.get? connection = y.2.pools.get? connection
  state : ∀ table, x.2.service.tableState connection table = y.2.service.tableState connection table
  keys : x.2.service.vault.keys = y.2.service.vault.keys

/-- A connection does not tell the worlds apart, nor what will come of them. -/
def AlikeOn (v w : World) (connection : String) : Prop :=
  (v.session (some connection)).TwinOn (w.session (some connection)) connection

variable {v w : World} {b : String} {c : Call}

namespace AlikeOn

/-! ## One call -/

/-- A call that does not concern a connection is not seen by it. -/
theorem step_left (h : v.AlikeOn w b) (hc : c.concerns b = false) : (v.step c).2.AlikeOn w b := by
  obtain ⟨name, hname, hne⟩ := Call.concerns_eq_false.mp hc
  have hbefore : (v.session c.connection?).AlikeOn (w.session (some b)) b := ⟨h.service, h.sent, h.pool⟩
  have hafter := hbefore.call_left hname hne
  refine ⟨⟨hafter.service, hafter.sent, hafter.pool⟩, ?_⟩
  have hanswers : (v.step c).2.answers b = v.answers b := if_neg (by simp [hname, hne])
  exact hanswers.trans h.replies

/-- A call that concerns the connection is answered and carried out in the same way. -/
theorem step (h : v.AlikeOn w b) (hc : c.concerns b = true) :
    (v.step c).1 = (w.step c).1 ∧ (v.step c).2.AlikeOn (w.step c).2 b := by
  have hname := Call.concerns_eq_true.mp hc
  have hbefore : (v.session c.connection?).TwinOn (w.session c.connection?) b := by
    cases hconnection : c.connection? with
    | none => exact ⟨⟨h.service, h.sent, h.pool⟩, rfl⟩
    | some name =>
        obtain rfl := hname name hconnection
        exact h
  obtain ⟨hanswer, hafter⟩ := hbefore.call hname
  refine ⟨congrArg (Event.mk c) hanswer, ⟨hafter.service, hafter.sent, hafter.pool⟩, ?_⟩
  exact if_congr Iff.rfl hafter.replies h.replies

/-! ## All calls -/

/-- The calls that concern a connection are seen as if there were no others. -/
theorem run (h : v.AlikeOn w b) (calls : List Call) :
    (v.run calls).1.filter (·.call.concerns b) =
      (w.run (calls.filter (·.concerns b))).1.filter (·.call.concerns b) ∧
    (v.run calls).2.AlikeOn (w.run (calls.filter (·.concerns b))).2 b := by
  induction calls generalizing v w with
  | nil => exact ⟨rfl, h⟩
  | cons c calls ih =>
      cases hc : c.concerns b with
      | false =>
          have hother : (v.step c).1.call.concerns b = false := hc
          obtain ⟨hevents, hlast⟩ := ih (h.step_left hc)
          rw [List.filter_cons_of_neg (by simp [hc]), run_cons]
          refine ⟨?_, hlast⟩
          rw [← hevents, List.filter_cons, hother]
          rfl
      | true =>
          have hown : (w.step c).1.call.concerns b = true := hc
          obtain ⟨hevent, hnext⟩ := h.step hc
          obtain ⟨hevents, hlast⟩ := ih hnext
          rw [List.filter_cons_of_pos hc, run_cons, run_cons]
          refine ⟨?_, hlast⟩
          rw [hevent, List.filter_cons, List.filter_cons, hown, hevents]

theorem sameView {x y : List Event × World}
    (hevents : x.1.filter (·.call.concerns b) = y.1.filter (·.call.concerns b)) (h : x.2.AlikeOn y.2 b) :
    SameView x y b :=
  ⟨hevents, h.sent, h.replies, congrFun h.service.find? b, h.pool, congrFun h.service.state,
    h.service.secrets.keys⟩

/-- What a connection sees of two runs is the same if the calls that concern it are. -/
theorem sameView_run (h : v.AlikeOn w b) {calls others : List Call}
    (hcalls : calls.filter (·.concerns b) = others.filter (·.concerns b)) :
    SameView (v.run calls) (w.run others) b := by
  obtain ⟨hevents, hlast⟩ := h.run calls
  obtain ⟨hothers, hother⟩ := AlikeOn.run (Session.TwinOn.trans h.symm h) others
  rw [hcalls] at hevents hlast
  exact sameView (hevents.trans hothers.symm) (Session.TwinOn.trans hlast hother.symm)

end AlikeOn

/-- Without the calls on one connection, another one sees the same: as long as its own database answers the same, its
calls and the new keys are answered as before, its database is sent the same statements, and the same is remembered
about its tables. -/
theorem run_without {suite : CipherSuite} {settings : ServiceSettings} {random : Bytes} {s : Service}
    (hs : Service.new? suite settings random = .ok s) {a b : String} (hab : a ≠ b)
    {answers others : String → List Reply} (hanswers : answers b = others b) (calls : List Call) :
    SameView (run { service := s, answers } calls)
      (run { service := s, answers := others } (calls.filter fun c => c.connection? ≠ some a)) b := by
  have hstart : AlikeOn { service := s, answers } { service := s, answers := others } b :=
    ⟨⟨.refl (Service.named_new? hs) b, rfl, rfl⟩, hanswers⟩
  refine hstart.sameView_run ?_
  rw [List.filter_filter]
  refine List.filter_congr fun c _ => ?_
  cases hc : c.concerns b with
  | false => rfl
  | true =>
      have hname : c.connection? ≠ some a := fun hsome => hab (Call.concerns_eq_true.mp hc a hsome)
      simp [hname]

/-- Two tenants, of which the second one counts its rows and encrypts a text under a new key. -/
theorem run_without_tenant :
    let settings : ServiceSettings := { tenants := some ⟨"sqlite://\x7bid\x7d.db", none⟩ }
    let nonce : Nonce := ⟨List.replicate 24 0, rfl⟩
    let others : String → List Reply := fun _ => [.rows [.ofList [("aggregate", .int 3)]]]
    let answers : String → List Reply := fun name => if name = "tenant_a" then [.done] else others name
    let calls : List Call := [
      .registerColumn "tenant_a" "users" (.searchable "name"),
      .registerColumn "tenant_b" "users" (.searchable "email"),
      .request (.act "tenant_a" "users" (.schema .dropTable)) fun _ _ => nonce,
      .rotateKey (List.replicate 32 9),
      .request (.count "tenant_b" "users" [.isNull "email"]) fun _ _ => nonce,
      .encrypt "tenant_b" "ada@example.org" nonce]
    ∃ s, Service.new? .standard settings (List.replicate 32 7) = .ok s ∧
      "tenant_a" ≠ "tenant_b" ∧ answers "tenant_b" = others "tenant_b" ∧
      SameView (run { service := s, answers } calls)
        (run { service := s, answers := others } (calls.filter fun c => c.connection? ≠ some "tenant_a"))
        "tenant_b" := by
  intro settings nonce others answers calls
  obtain ⟨s, hs⟩ := Except.exists_of_isOk
    (x := Service.new? .standard settings (List.replicate 32 7)) (by decide +kernel)
  have hanswers : answers "tenant_b" = others "tenant_b" := if_neg (by decide)
  exact ⟨s, hs, by decide, hanswers, run_without hs (by decide) hanswers calls⟩

end World

end TableGate
