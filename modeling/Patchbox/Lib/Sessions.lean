import Mathlib

/-!
# Clients that talk to a server

A client is a program that asks a question and goes on with the answer. Its marks
record internal events that the server does not see. `Client.Safe` is the weakest
precondition of a client with respect to a server: it holds when the server keeps an
invariant at each of the client's questions and the client keeps its postcondition,
whatever the surroundings do. `Client.run` executes a client with given surroundings.

`Queue` has many clients and a server that takes one of them at a time. It keeps to a
client until that client has gone, the session is full, or the server stops. What is
safe for each client alone is safe for all of them in any order, and the server's
history falls into one block for each client.

## Main definitions

* `Client`, `Client.bind` — programs and their composition.
* `Client.Safe`, `Client.run` — the rules, and executions.
* `Client.Path` — how a client gets from one program to another.
* `Queue`, `Queue.Step` — the server and its clients.
* `Queue.Reachable.invariant`, `Queue.Reachable.grouped` — the two results.
-/

namespace Lib

/-- A program that asks questions `ρ`, gets answers `α`, marks events `ε` and returns a `β`. One
that never returns and never gets an answer again is `forever`. -/
inductive Client (ρ α ε β : Type) where
  | done (b : β)
  | ask (r : ρ) (k : α → Client ρ α ε β)
  | mark (e : ε) (p : Client ρ α ε β)
  | forever

variable {ρ α ε β γ σ κ η ι : Type}

namespace Client

/-- Run the second program with the result of the first. -/
def bind : Client ρ α ε β → (β → Client ρ α ε γ) → Client ρ α ε γ
  | .done b, f => f b
  | .ask r k, f => .ask r fun a => (k a).bind f
  | .mark e p, f => .mark e (p.bind f)
  | .forever, _ => .forever

end Client

/-- A server: what serving a question does to its state and to the session, and the answer, if
there is one. The surroundings `η` may influence it. A session starts `fresh`; the server reads
the next question of one that is `ready`, and leaves one that is `full`. -/
structure Service (σ κ ρ α η : Type) where
  serve : η → σ → κ → ρ → σ × κ × Option α
  fresh : κ
  ready : κ → Prop
  full : κ → Prop

namespace Client

variable (S : Service σ κ ρ α η)

/-- The weakest precondition. The last argument is the trace of questions and marks so far. At
each question the server's state is `ok`, and afterwards state and trace satisfy `inv`. -/
def Safe (ok : σ → Prop) (inv : σ → List (ρ ⊕ ε) → Prop)
    (post : β → σ → κ → List (ρ ⊕ ε) → Prop) :
    Client ρ α ε β → σ → κ → List (ρ ⊕ ε) → Prop
  | .done b, s, l, tr => post b s l tr
  | .ask r k, s, l, tr => ok s → ∀ e, inv (S.serve e s l r).1 (tr ++ [.inl r]) ∧
      ∀ a, (S.serve e s l r).2.2 = some a →
        (k a).Safe ok inv post (S.serve e s l r).1 (S.serve e s l r).2.1 (tr ++ [.inl r])
  | .mark e p, s, l, tr => inv s (tr ++ [.inr e]) ∧ p.Safe ok inv post s l (tr ++ [.inr e])
  | .forever, _, _, _ => True

variable {S} in
theorem safe_ask {ok : σ → Prop} {inv : σ → List (ρ ⊕ ε) → Prop}
    {post : β → σ → κ → List (ρ ⊕ ε) → Prop} {r : ρ} {k : α → Client ρ α ε β} {s : σ} {l : κ}
    {tr : List (ρ ⊕ ε)} : (Client.ask r k).Safe S ok inv post s l tr ↔
      (ok s → ∀ e, inv (S.serve e s l r).1 (tr ++ [.inl r]) ∧
        ∀ a, (S.serve e s l r).2.2 = some a →
          (k a).Safe S ok inv post (S.serve e s l r).1 (S.serve e s l r).2.1 (tr ++ [.inl r])) :=
  Iff.rfl

variable {S} in
/-- A question, once it is known how it is served. -/
theorem safe_ask_of_serve {ok : σ → Prop} {inv : σ → List (ρ ⊕ ε) → Prop}
    {post : β → σ → κ → List (ρ ⊕ ε) → Prop} {r : ρ} {k : α → Client ρ α ε β} {s : σ} {l : κ}
    {tr : List (ρ ⊕ ε)}
    (h : ∀ e, ∃ s' l' a, S.serve e s l r = (s', l', a) ∧ inv s' (tr ++ [.inl r]) ∧
      ∀ ans, a = some ans → (k ans).Safe S ok inv post s' l' (tr ++ [.inl r])) :
    (Client.ask r k).Safe S ok inv post s l tr := by
  rw [safe_ask]
  intro _ e
  obtain ⟨s', l', a, heq, hinv, hans⟩ := h e
  rw [heq]
  exact ⟨hinv, hans⟩

/-- Execute a client with the surroundings of each question: the trace, and what it returns and
leaves, if it does. -/
def run : (ℕ → η) → Client ρ α ε β → σ → κ → List (ρ ⊕ ε) × Option (β × σ × κ)
  | _, .done b, s, l => ([], some (b, s, l))
  | env, .ask r k, s, l =>
      match S.serve (env 0) s l r with
      | (_, _, none) => ([.inl r], none)
      | (s', l', some a) =>
        let out := run (fun n => env (n + 1)) (k a) s' l'
        (.inl r :: out.1, out.2)
  | env, .mark e p, s, l => (.inr e :: (run env p s l).1, (run env p s l).2)
  | _, .forever, _, _ => ([], none)

variable {S} {ok : σ → Prop} {inv : σ → List (ρ ⊕ ε) → Prop} {s : σ} {l : κ}
  {tr : List (ρ ⊕ ε)}

/-! ## The rules -/

/-- Weaken the postcondition. -/
theorem Safe.mono {post post' : β → σ → κ → List (ρ ⊕ ε) → Prop}
    (hpost : ∀ b s l tr, post b s l tr → post' b s l tr) {p : Client ρ α ε β}
    (h : p.Safe S ok inv post s l tr) : p.Safe S ok inv post' s l tr := by
  induction p generalizing s l tr with
  | done b => exact hpost b s l tr h
  | ask r k ih =>
      intro hok e
      obtain ⟨hinv, hk⟩ := h hok e
      exact ⟨hinv, fun a ha => ih a (hk a ha)⟩
  | mark e p ih => exact ⟨h.1, ih h.2⟩
  | forever => trivial

/-- **Composition.** The postcondition of the first program is the precondition of the second. -/
theorem Safe.bind {mid : β → σ → κ → List (ρ ⊕ ε) → Prop}
    {post : γ → σ → κ → List (ρ ⊕ ε) → Prop} {p : Client ρ α ε β} {f : β → Client ρ α ε γ}
    (h : p.Safe S ok inv mid s l tr)
    (hf : ∀ b s l tr, mid b s l tr → (f b).Safe S ok inv post s l tr) :
    (p.bind f).Safe S ok inv post s l tr := by
  induction p generalizing s l tr with
  | done b => exact hf b s l tr h
  | ask r k ih =>
      intro hok e
      obtain ⟨hinv, hk⟩ := h hok e
      exact ⟨hinv, fun a ha => ih a (hk a ha)⟩
  | mark e p ih => exact ⟨h.1, ih h.2⟩
  | forever => trivial

/-- **Executions.** Where the state is always `ok`, the trace of an execution satisfies the
invariant in some state, and what is returned satisfies the postcondition. -/
theorem Safe.run {post : β → σ → κ → List (ρ ⊕ ε) → Prop} (hok : ∀ s, ok s)
    {p : Client ρ α ε β} (h : p.Safe S ok inv post s l tr) (hinv : inv s tr) (env : ℕ → η) :
    (∃ s', inv s' (tr ++ (p.run S env s l).1)) ∧
      ∀ b s' l', (p.run S env s l).2 = some (b, s', l') →
        post b s' l' (tr ++ (p.run S env s l).1) := by
  induction p generalizing s l tr env with
  | done b =>
      simp only [Client.run, List.append_nil]
      refine ⟨⟨s, hinv⟩, fun b' s' l' heq => ?_⟩
      obtain ⟨rfl, rfl, rfl⟩ := by simpa using heq
      exact h
  | ask r k ih =>
      obtain ⟨hinv', hk⟩ := h (hok s) (env 0)
      rw [Client.run]
      generalize S.serve (env 0) s l r = out at hinv' hk
      obtain ⟨s', l', a⟩ := out
      cases a with
      | none => exact ⟨⟨s', hinv'⟩, fun b s' l' heq => by cases heq⟩
      | some a =>
          have hrun := ih a (hk a rfl) hinv' fun n => env (n + 1)
          rw [List.append_assoc, List.singleton_append] at hrun
          exact hrun
  | mark e p ih =>
      have hrun := ih h.2 h.1 env
      rw [List.append_assoc, List.singleton_append] at hrun
      exact hrun
  | forever =>
      simp only [Client.run, List.append_nil]
      exact ⟨⟨s, hinv⟩, fun b s' l' heq => by cases heq⟩

/-! ## Paths -/

/-- With some surroundings the first program gets to the second one, and leaves the trace. -/
inductive Path (S : Service σ κ ρ α η) : Client ρ α ε β → σ → κ → List (ρ ⊕ ε) →
    Client ρ α ε β → σ → κ → Prop
  | refl (p : Client ρ α ε β) (s : σ) (l : κ) : Path S p s l [] p s l
  | ask {r : ρ} {k : α → Client ρ α ε β} {s s' s'' : σ} {l l' l'' : κ} {a : α}
      {tr : List (ρ ⊕ ε)} {q : Client ρ α ε β} (e : η) (h : S.serve e s l r = (s', l', some a))
      (hp : Path S (k a) s' l' tr q s'' l'') : Path S (.ask r k) s l (.inl r :: tr) q s'' l''
  | mark {e : ε} {p : Client ρ α ε β} {s s' : σ} {l l' : κ} {tr : List (ρ ⊕ ε)}
      {q : Client ρ α ε β} (hp : Path S p s l tr q s' l') :
      Path S (.mark e p) s l (.inr e :: tr) q s' l'

/-- One path after the other. -/
theorem Path.trans {p q r : Client ρ α ε β} {s s' s'' : σ} {l l' l'' : κ}
    {tr tr' : List (ρ ⊕ ε)} (h : Path S p s l tr q s' l') (h' : Path S q s' l' tr' r s'' l'') :
    Path S p s l (tr ++ tr') r s'' l'' := by
  induction h with
  | refl => exact h'
  | ask e hserve _ ih => exact .ask e hserve (ih h')
  | mark _ ih => exact .mark (ih h')

/-- A path of the first program of a sequence. -/
theorem Path.bind {p q : Client ρ α ε β} {s s' : σ} {l l' : κ} {tr : List (ρ ⊕ ε)}
    (h : Path S p s l tr q s' l') (f : β → Client ρ α ε γ) :
    Path S (p.bind f) s l tr (q.bind f) s' l' := by
  induction h with
  | refl => exact .refl _ _ _
  | ask e hserve _ ih => exact .ask e hserve ih
  | mark _ ih => exact .mark ih

/-- A path that ends in a result, and one from where the next program starts with it. -/
theorem Path.andThen {p : Client ρ α ε β} {q : Client ρ α ε γ} {f : β → Client ρ α ε γ} {b : β}
    {s s' s'' : σ} {l l' l'' : κ} {tr tr' : List (ρ ⊕ ε)} (h : Path S p s l tr (.done b) s' l')
    (h' : Path S (f b) s' l' tr' q s'' l'') : Path S (p.bind f) s l (tr ++ tr') q s'' l'' :=
  (h.bind f).trans h'

/-- **A path is the front of an execution.** -/
theorem Path.run {p q : Client ρ α ε β} {s s' : σ} {l l' : κ} {tr : List (ρ ⊕ ε)}
    (h : Path S p s l tr q s' l') (env' : ℕ → η) :
    ∃ env, (p.run S env s l).1 = tr ++ (q.run S env' s' l').1 := by
  induction h with
  | refl => exact ⟨env', rfl⟩
  | ask e hserve _ ih =>
      obtain ⟨env, henv⟩ := ih
      refine ⟨fun n => n.casesOn e env, ?_⟩
      rw [Client.run]
      simp only [Nat.rec_zero, hserve]
      exact congrArg (List.cons _) henv
  | mark _ ih =>
      obtain ⟨env, henv⟩ := ih
      exact ⟨env, by rw [Client.run, henv, List.cons_append]⟩

/-- An execution starts with the question that is asked. -/
theorem run_ask (r : ρ) (k : α → Client ρ α ε β) (env : ℕ → η) :
    ∃ behind, ((Client.ask r k).run S env s l).1 = .inl r :: behind := by
  rw [Client.run]
  rcases S.serve (env 0) s l r with ⟨s', l', _ | a⟩
  · exact ⟨[], rfl⟩
  · exact ⟨_, rfl⟩

end Client

/-! ## One client at a time -/

/-- A client as the others see it: the rest of its program, whether its question is on the way,
and whether it has gone. -/
structure Seat (ρ α ε β : Type) where
  program : Client ρ α ε β
  sent : Bool
  gone : Bool

/-- A server and its clients: its state, the session, the client it serves, those it has accepted,
whether it has stopped, and the questions it has served. -/
structure Queue (ι σ κ ρ α ε β : Type) where
  server : σ
  session : κ
  current : Option ι
  accepted : Set ι
  stopped : Bool
  seats : ι → Seat ρ α ε β
  history : List (ι × ρ)

/-- Give a client another seat. -/
def Queue.setSeat [DecidableEq ι] (q : Queue ι σ κ ρ α ε β) (i : ι) (seat : Seat ρ α ε β) :
    Queue ι σ κ ρ α ε β :=
  { q with seats := Function.update q.seats i seat }

/-- What a client goes on with after it has been served. -/
def Client.next (k : α → Client ρ α ε β) : Option α → Client ρ α ε β
  | none => .forever
  | some a => k a

/-- One step. A client sends its question, marks an event or goes at any time. The server accepts
a client when it has none, serves a question of the client it has, leaves a client that has gone
and has nothing on the way, leaves a session that is full, and may stop. -/
inductive Queue.Step [DecidableEq ι] (S : Service σ κ ρ α η) :
    Queue ι σ κ ρ α ε β → Queue ι σ κ ρ α ε β → Prop
  | send {q i r k} (hask : (q.seats i).program = .ask r k) (hhere : (q.seats i).gone = false) :
      Step S q (q.setSeat i { q.seats i with sent := true })
  | mark {q i e p} (hmark : (q.seats i).program = .mark e p) :
      Step S q (q.setSeat i { q.seats i with program := p })
  | leave {q} (i : ι) : Step S q (q.setSeat i { q.seats i with gone := true })
  | accept {q i} (hnone : q.current = none) (hrun : q.stopped = false) (hnew : i ∉ q.accepted) :
      Step S q { q with current := some i, session := S.fresh, accepted := insert i q.accepted }
  | serve {q i r k} (hcur : q.current = some i) (hask : (q.seats i).program = .ask r k)
      (hsent : (q.seats i).sent = true) (hready : S.ready q.session) (e : η) :
      Step S q
        { q with
          seats := Function.update q.seats i
            ⟨.next k (S.serve e q.server q.session r).2.2, false, (q.seats i).gone⟩
          server := (S.serve e q.server q.session r).1
          session := (S.serve e q.server q.session r).2.1
          history := q.history ++ [(i, r)] }
  | hangup {q i} (hcur : q.current = some i) (hgone : (q.seats i).gone = true)
      (hidle : (q.seats i).sent = false) : Step S q { q with current := none }
  | limit {q i} (hcur : q.current = some i) (hfull : S.full q.session) :
      Step S q { q with current := none }
  | stop {q} : Step S q { q with current := none, stopped := true }

/-- The states that are reached through states whose server is `ok`. -/
inductive Queue.Reachable [DecidableEq ι] (S : Service σ κ ρ α η) (ok : σ → Prop)
    (q₀ : Queue ι σ κ ρ α ε β) : Queue ι σ κ ρ α ε β → Prop
  | start : Reachable S ok q₀ q₀
  | step {q q'} (h : Reachable S ok q₀ q) (hok : ok q.server) (hs : Queue.Step S q q') :
      Reachable S ok q₀ q'

/-- Nobody has been accepted yet. -/
structure Queue.Initial (q : Queue ι σ κ ρ α ε β) : Prop where
  current : q.current = none
  accepted : q.accepted = ∅
  history : q.history = []

/-- A client is safe in a state of the server and of the session. -/
def Client.SafeIn (S : Service σ κ ρ α η) (ok : σ → Prop) (inv : σ → Prop)
    (p : Client ρ α ε β) (s : σ) (l : κ) : Prop :=
  ∃ tr, p.Safe S ok (fun s _ => inv s) (fun _ _ _ _ => True) s l tr

/-- What holds in every reachable state: the server's invariant, and that the client it serves and
those that wait are safe. -/
structure Queue.Inv (S : Service σ κ ρ α η) (ok inv : σ → Prop) (q : Queue ι σ κ ρ α ε β) :
    Prop where
  server : inv q.server
  mem_accepted : ∀ i, q.current = some i → i ∈ q.accepted
  waiting : ∀ i ∉ q.accepted, ∀ s, inv s → (q.seats i).program.SafeIn S ok inv s S.fresh
  served : ∀ i, q.current = some i → (q.seats i).program.SafeIn S ok inv q.server q.session

namespace Queue

variable [DecidableEq ι] {S : Service σ κ ρ α η} {ok inv : σ → Prop}
  {q q' q₀ : Queue ι σ κ ρ α ε β}

@[simp] theorem setSeat_seats_self (i : ι) (seat : Seat ρ α ε β) :
    (q.setSeat i seat).seats i = seat := by simp [setSeat]

theorem setSeat_seats_of_ne {i j : ι} (h : j ≠ i) (seat : Seat ρ α ε β) :
    (q.setSeat i seat).seats j = q.seats j := by simp [setSeat, h]

/-- A step that only touches a client's program, and keeps it safe where it was. -/
theorem Inv.setSeat (h : q.Inv S ok inv) {i : ι} {seat : Seat ρ α ε β}
    (hsafe : ∀ s l, inv s → (q.seats i).program.SafeIn S ok inv s l →
      seat.program.SafeIn S ok inv s l) : (q.setSeat i seat).Inv S ok inv := by
  refine ⟨h.server, h.mem_accepted, fun j hj s hs => ?_, fun j hj => ?_⟩
  · by_cases hji : j = i
    · subst hji
      rw [setSeat_seats_self]
      exact hsafe s S.fresh hs (h.waiting j hj s hs)
    · rw [setSeat_seats_of_ne hji]
      exact h.waiting j hj s hs
  · by_cases hji : j = i
    · subst hji
      rw [setSeat_seats_self]
      exact hsafe _ _ h.server (h.served j hj)
    · rw [setSeat_seats_of_ne hji]
      exact h.served j hj

omit [DecidableEq ι] in
/-- The server turns to nobody. -/
theorem Inv.free (h : q.Inv S ok inv) (stopped : Bool) :
    ({ q with current := none, stopped := stopped } : Queue ι σ κ ρ α ε β).Inv S ok inv :=
  ⟨h.server, (fun i hi => by cases hi), h.waiting, (fun i hi => by cases hi)⟩

/-- **Every step keeps the invariant.** -/
theorem Inv.step (h : q.Inv S ok inv) (hok : ok q.server) (hs : Step S q q') :
    q'.Inv S ok inv := by
  cases hs with
  | send hask hhere => exact h.setSeat fun s l _ hsafe => hsafe
  | mark hmark =>
      refine h.setSeat fun s l _ hsafe => ?_
      rw [hmark] at hsafe
      obtain ⟨tr, hsafe⟩ := hsafe
      exact ⟨_, hsafe.2⟩
  | leave i => exact h.setSeat fun s l _ hsafe => hsafe
  | @accept i hnone hrun hnew =>
      refine ⟨h.server, fun j hj => ?_, fun j hj => ?_, fun j hj => ?_⟩
      · obtain rfl := Option.some.inj hj
        exact Set.mem_insert _ _
      · exact h.waiting j fun hmem => hj (Set.mem_insert_of_mem i hmem)
      · obtain rfl := Option.some.inj hj
        exact h.waiting _ hnew _ h.server
  | @serve i r k hcur hask hsent hready e =>
      obtain ⟨tr, hsafe⟩ := h.served i hcur
      rw [hask] at hsafe
      obtain ⟨hinv, hk⟩ := hsafe hok e
      refine ⟨hinv, h.mem_accepted, fun j hj s hs => ?_, fun j hj => ?_⟩
      · have hji : j ≠ i := fun hji => hj (hji ▸ h.mem_accepted i hcur)
        simp only [Function.update_of_ne hji]
        exact h.waiting j hj s hs
      · obtain rfl := Option.some.inj (hcur.symm.trans hj)
        simp only [Function.update_self]
        refine ⟨tr ++ [.inl r], ?_⟩
        cases ha : (S.serve e q.server q.session r).2.2 with
        | none => trivial
        | some a => exact hk a ha
  | hangup hcur hgone hidle => exact h.free q.stopped
  | limit hcur hfull => exact h.free q.stopped
  | stop => exact h.free true

/-- **The server's invariant holds in every reachable state**, when each client alone is safe. -/
theorem Reachable.invariant (h : Reachable S ok q₀ q) (hinit : q₀.Initial) (hserver : inv q₀.server)
    (hsafe : ∀ i s, inv s → (q₀.seats i).program.SafeIn S ok inv s S.fresh) : inv q.server := by
  suffices hinv : q.Inv S ok inv from hinv.server
  induction h with
  | start =>
      refine ⟨hserver, fun i hi => ?_, fun i _ => hsafe i, fun i hi => ?_⟩
      all_goals rw [hinit.current] at hi; cases hi
  | step _ hok hs ih => exact ih.step hok hs

end Queue

/-! ## One block for each client -/

/-- Between two entries of a client stand only its own. -/
def Grouped (ids : List ι) : Prop :=
  ∀ i before between after, ids = before ++ i :: between ++ i :: after → ∀ j ∈ between, j = i

/-- Another entry of the client of the last one, or of a new one. -/
theorem Grouped.concat {ids : List ι} (h : Grouped ids) {i : ι}
    (hlast : i ∈ ids → ids.getLast? = some i) : Grouped (ids ++ [i]) := by
  intro j before between after heq
  rcases List.eq_nil_or_concat after with rfl | ⟨after, k, rfl⟩
  · -- the second of the two entries is the new one
    obtain ⟨hids, hij⟩ := List.append_inj' heq rfl
    obtain rfl : i = j := List.singleton_inj.mp hij
    rcases List.eq_nil_or_concat between with rfl | ⟨between, k, rfl⟩
    · exact fun j hj => absurd hj List.not_mem_nil
    · have hmem : i ∈ ids := by
        rw [hids]
        exact List.mem_append_right _ List.mem_cons_self
      have hk := hlast hmem
      rw [List.concat_eq_append] at hids ⊢
      rw [hids, ← List.cons_append, ← List.append_assoc, List.getLast?_concat] at hk
      obtain rfl := Option.some.inj hk
      intro j hj
      rcases List.mem_append.mp hj with hj | hj
      · exact h k before between [] (by rw [hids]; simp) j hj
      · exact List.mem_singleton.mp hj
  · rw [List.concat_eq_append, ← List.cons_append, ← List.append_assoc] at heq
    exact h j before between after (List.append_inj' heq rfl).1

namespace Queue

variable [DecidableEq ι] {S : Service σ κ ρ α η} {ok : σ → Prop}
  {q q' q₀ : Queue ι σ κ ρ α ε β}

/-- The clients in the history have been accepted, and the one that is served now comes last. -/
structure Blocks (q : Queue ι σ κ ρ α ε β) : Prop where
  grouped : Grouped (q.history.map Prod.fst)
  accepted : ∀ i ∈ q.history.map Prod.fst, i ∈ q.accepted
  current : ∀ i, q.current = some i → i ∈ q.accepted ∧
    (i ∈ q.history.map Prod.fst → (q.history.map Prod.fst).getLast? = some i)

omit [DecidableEq ι] in
theorem Blocks.free (h : q.Blocks) (stopped : Bool) :
    ({ q with current := none, stopped := stopped } : Queue ι σ κ ρ α ε β).Blocks :=
  ⟨h.grouped, h.accepted, fun i hi => by cases hi⟩

theorem Blocks.step (h : q.Blocks) (hs : Step S q q') : q'.Blocks := by
  cases hs with
  | send _ _ => exact ⟨h.grouped, h.accepted, h.current⟩
  | mark _ => exact ⟨h.grouped, h.accepted, h.current⟩
  | leave _ => exact ⟨h.grouped, h.accepted, h.current⟩
  | @accept i hnone hrun hnew =>
      refine ⟨h.grouped, fun j hj => Set.mem_insert_of_mem i (h.accepted j hj), fun j hj => ?_⟩
      obtain rfl := Option.some.inj hj
      exact ⟨Set.mem_insert _ _, fun hmem => absurd (h.accepted _ hmem) hnew⟩
  | @serve i r k hcur hask hsent hready e =>
      obtain ⟨hacc, hlast⟩ := h.current i hcur
      have hids : (q.history ++ [(i, r)]).map Prod.fst = q.history.map Prod.fst ++ [i] := by simp
      refine ⟨?_, fun j hj => ?_, fun j hj => ?_⟩
      · rw [hids]
        exact h.grouped.concat hlast
      · rw [hids] at hj
        rcases List.mem_append.mp hj with hj | hj
        · exact h.accepted j hj
        · exact List.mem_singleton.mp hj ▸ hacc
      · obtain rfl := Option.some.inj (hcur.symm.trans hj)
        rw [hids]
        exact ⟨hacc, fun _ => List.getLast?_concat⟩
  | hangup _ _ _ => exact h.free q.stopped
  | limit _ _ => exact h.free q.stopped
  | stop => exact h.free true

/-- **The history has one block for each client.** -/
theorem Reachable.grouped (h : Reachable S ok q₀ q) (hinit : q₀.Initial) :
    Grouped (q.history.map Prod.fst) := by
  suffices hblocks : q.Blocks from hblocks.grouped
  induction h with
  | start =>
      refine ⟨?_, ?_, fun i hi => ?_⟩
      · rw [hinit.history]
        intro i before between after heq
        simp at heq
      · rw [hinit.history]
        exact fun i hi => absurd hi List.not_mem_nil
      · rw [hinit.current] at hi
        cases hi
  | step _ _ hs ih => exact ih.step hs

end Queue

end Lib
