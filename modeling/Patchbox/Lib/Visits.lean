import Patchbox.Lib.Explained

/-!
# Clients that are served to their end

`Queue.Reachable` allows every order of steps. One of them is to accept a client, serve it until
it returns and let it go. Where the client is attended all the way, this order exists, and the
server is left as by an execution of the client alone.

## Main definitions

* `Client.attended` — the server can answer all questions of an execution.
* `Queue.Visited` — what a client leaves behind that has been served to its end.
* `Queue.Reachable.visit` — such a state is reached.
-/

namespace Lib

variable {ρ α ε β σ κ η ι : Type}

/-- Each question of the execution comes to a server that is `ok` and reads it, and is answered;
the client returns. -/
def Client.attended (S : Service σ κ ρ α η) (ok : σ → Prop) [DecidablePred ok]
    [DecidablePred S.ready] : (ℕ → η) → Client ρ α ε β → σ → κ → Bool
  | _, .done _, s, _ => decide (ok s)
  | env, .ask r k, s, l =>
      decide (ok s) && decide (S.ready l) &&
        match S.serve (env 0) s l r with
        | (_, _, none) => false
        | (s', l', some a) => attended S ok (fun n => env (n + 1)) (k a) s' l'
  | env, .mark _ p, s, l => decide (ok s) && attended S ok env p s l
  | _, .forever, _, _ => false

/-- From one state to another the server has served these questions of the client it has. -/
structure Queue.Serves (q : Queue ι σ κ ρ α ε β) (i : ι) (rs : List ρ)
    (q' : Queue ι σ κ ρ α ε β) : Prop where
  current : q'.current = some i
  idle : (q'.seats i).sent = false
  others : ∀ j, j ≠ i → q'.seats j = q.seats j
  accepted : q'.accepted = q.accepted
  stopped : q'.stopped = q.stopped
  history : q'.history = q.history ++ rs.map (Prod.mk i)

/-- The client has been accepted, served to its end and has gone. -/
structure Queue.Visited (S : Service σ κ ρ α η) (env : ℕ → η) (p : Client ρ α ε β)
    (q : Queue ι σ κ ρ α ε β) (i : ι) (q' : Queue ι σ κ ρ α ε β) : Prop where
  returns : ∃ b l, (p.run S env q.server S.fresh).2 = some (b, q'.server, l)
  current : q'.current = none
  others : ∀ j, j ≠ i → q'.seats j = q.seats j
  accepted : q'.accepted = insert i q.accepted
  stopped : q'.stopped = q.stopped
  history : q'.history = q.history ++
    (requests (p.run S env q.server S.fresh).1).map (Prod.mk i)

namespace Queue

variable [DecidableEq ι] {S : Service σ κ ρ α η} {ok : σ → Prop}
  {q₀ q : Queue ι σ κ ρ α ε β} {i : ι}

/-- A question is sent and served. -/
theorem Reachable.answer {r : ρ} {k : α → Client ρ α ε β} (h : Reachable S ok q₀ q)
    (hcur : q.current = some i) (hseat : q.seats i = ⟨.ask r k, false, false⟩)
    (hok : ok q.server) (hready : S.ready q.session) (e : η) {s' : σ} {l' : κ} {a : α}
    (hserve : S.serve e q.server q.session r = (s', l', some a)) :
    ∃ q', Reachable S ok q₀ q' ∧ q.Serves i [r] q' ∧ q'.seats i = ⟨k a, false, false⟩ ∧
      q'.server = s' ∧ q'.session = l' := by
  have hsend := h.step hok (.send (i := i) (by rw [hseat]) (by rw [hseat]))
  rw [hseat] at hsend
  have hserved := hsend.step hok
    (Step.serve (q := q.setSeat i ⟨.ask r k, true, false⟩) (k := k) hcur
      (by rw [setSeat_seats_self]) (by rw [setSeat_seats_self]) hready e)
  refine ⟨_, hserved, ⟨hcur, ?_, fun j hj => ?_, rfl, rfl, rfl⟩, ?_, ?_, ?_⟩
  · simp only [Function.update_self]
  · simp only [setSeat, Function.update_of_ne hj]
  · simp only [setSeat, Function.update_self, hserve, Client.next]
  · simp only [setSeat, hserve]
  · simp only [setSeat, hserve]

variable [DecidablePred ok] [DecidablePred S.ready]

/-- **The client is served until it returns**, and leaves the server as its execution does. -/
theorem Reachable.serveAll {p : Client ρ α ε β} (env : ℕ → η) (h : Reachable S ok q₀ q)
    (hcur : q.current = some i) (hseat : q.seats i = ⟨p, false, false⟩)
    (hatt : p.attended S ok env q.server q.session = true) :
    ∃ q' b, Reachable S ok q₀ q' ∧ ok q'.server ∧
      (p.run S env q.server q.session).2 = some (b, q'.server, q'.session) ∧
      q.Serves i (requests (p.run S env q.server q.session).1) q' := by
  induction p generalizing q env with
  | done b =>
      refine ⟨q, b, h, of_decide_eq_true hatt, rfl, hcur, by rw [hseat], fun _ _ => rfl, rfl,
        rfl, ?_⟩
      simp [Client.run]
  | ask r k ih =>
      rw [Client.attended] at hatt
      obtain ⟨hfirst, hrest⟩ := Bool.and_eq_true_iff.mp hatt
      obtain ⟨hok, hready⟩ := Bool.and_eq_true_iff.mp hfirst
      rcases hserve : S.serve (env 0) q.server q.session r with ⟨s', l', _ | a⟩
      · rw [hserve] at hrest
        cases hrest
      · rw [hserve] at hrest
        obtain ⟨q₁, hreach, hone, hseat₁, rfl, rfl⟩ := h.answer hcur hseat (of_decide_eq_true hok)
          (of_decide_eq_true hready) (env 0) hserve
        obtain ⟨q', b, hreach', hok', hrun, hall⟩ :=
          ih a (fun n => env (n + 1)) hreach hone.current hseat₁ hrest
        rw [Client.run]
        simp only [hserve]
        refine ⟨q', b, hreach', hok', hrun, hall.current, hall.idle, fun j hj => ?_, ?_, ?_, ?_⟩
        · rw [hall.others j hj, hone.others j hj]
        · rw [hall.accepted, hone.accepted]
        · rw [hall.stopped, hone.stopped]
        · rw [hall.history, hone.history]
          simp
  | mark e p ih =>
      rw [Client.attended] at hatt
      obtain ⟨hok, hrest⟩ := Bool.and_eq_true_iff.mp hatt
      have hmarked := h.step (of_decide_eq_true hok) (.mark (i := i) (by rw [hseat]))
      obtain ⟨q', b, hreach', hok', hrun, hall⟩ :=
        ih env hmarked hcur (by rw [setSeat_seats_self, hseat]) hrest
      refine ⟨q', b, hreach', hok', hrun, hall.current, hall.idle, fun j hj => ?_, hall.accepted,
        hall.stopped, ?_⟩
      · rw [hall.others j hj, setSeat_seats_of_ne hj]
      · rw [hall.history, Client.run, requests_cons_inr]
        rfl
  | forever => cases hatt

/-- **A visit.** A client that waits is accepted, served to its end, and goes. -/
theorem Reachable.visit {p : Client ρ α ε β} {env : ℕ → η} (h : Reachable S ok q₀ q)
    (hnone : q.current = none) (hrunning : q.stopped = false) (hnew : i ∉ q.accepted)
    (hseat : q.seats i = ⟨p, false, false⟩) (hok : ok q.server)
    (hatt : p.attended S ok env q.server S.fresh = true) :
    ∃ q', Reachable S ok q₀ q' ∧ ok q'.server ∧ q.Visited S env p i q' := by
  have haccepted := h.step hok (.accept hnone hrunning hnew)
  obtain ⟨q₁, b, hreach, hok₁, hrun, hserves⟩ := haccepted.serveAll env rfl hseat hatt
  have hgone := hreach.step hok₁ (.leave i)
  have hfree := hgone.step hok₁ (.hangup hserves.current (by simp) (by simpa using hserves.idle))
  refine ⟨_, hfree, hok₁, ⟨b, _, hrun⟩, rfl, fun j hj => ?_, hserves.accepted, hserves.stopped,
    hserves.history⟩
  simp only [setSeat_seats_of_ne hj, hserves.others j hj]

end Queue

end Lib
