import Patchbox.Lib.Sessions

/-!
# Histories that explain a state

`Queue` has a server that takes one client at a time. What relates the server's state to the
questions it has served, at each question of a client alone, relates them in every reachable
state. So the history is a run of an abstract machine that has only the server's purpose in its
state, when each client alone makes the server follow it.

## Main definitions

* `requests` — the questions of a trace.
* `Explained` — some run of a machine over the questions leads from one state to another.
* `Queue.Reachable.history_invariant` — a relation of state and history, from each client alone.
-/

namespace Lib

variable {ρ α ε β σ κ η ι τ : Type}

/-- The questions of a trace. -/
def requests (tr : List (ρ ⊕ ε)) : List ρ := tr.filterMap Sum.getLeft?

@[simp] theorem requests_nil : requests ([] : List (ρ ⊕ ε)) = [] := rfl

@[simp] theorem requests_cons_inl (r : ρ) (tr : List (ρ ⊕ ε)) :
    requests (.inl r :: tr) = r :: requests tr := rfl

@[simp] theorem requests_cons_inr (e : ε) (tr : List (ρ ⊕ ε)) :
    requests (.inr e :: tr) = requests tr := rfl

@[simp] theorem requests_concat_inl (tr : List (ρ ⊕ ε)) (r : ρ) :
    requests (tr ++ [.inl r]) = requests tr ++ [r] := by
  rw [requests, List.filterMap_append]
  rfl

@[simp] theorem requests_concat_inr (tr : List (ρ ⊕ ε)) (e : ε) :
    requests (tr ++ [.inr e]) = requests tr := by
  rw [requests, List.filterMap_append]
  exact List.append_nil _

/-- Some run of the machine over the questions leads from the first state to the last. -/
inductive Explained (step : τ → ρ → τ → Prop) (a : τ) : List ρ → τ → Prop
  | start : Explained step a [] a
  | concat {rs : List ρ} {r : ρ} {b c : τ} (h : Explained step a rs b) (hs : step b r c) :
      Explained step a (rs ++ [r]) c

namespace Client

/-- After the server has served some questions, the client that it goes on with keeps the relation
of state and history. -/
def KeepsHistory (S : Service σ κ ρ α η) (ok : σ → Prop) (inv : σ → List ρ → Prop)
    (p : Client ρ α ε β) (s : σ) (l : κ) (history : List ρ) : Prop :=
  ∃ past tr, history = past ++ requests tr ∧
    p.Safe S ok (fun s tr => inv s (past ++ requests tr)) (fun _ _ _ _ => True) s l tr

end Client

namespace Queue

variable [DecidableEq ι] {S : Service σ κ ρ α η} {ok : σ → Prop} {inv : σ → List ρ → Prop}
  {q q' q₀ : Queue ι σ κ ρ α ε β}

/-- The questions that the server has served. -/
def served (q : Queue ι σ κ ρ α ε β) : List ρ := q.history.map Prod.snd

/-- What holds in every reachable state, of the client that is served and of those that wait. -/
structure Follows (S : Service σ κ ρ α η) (ok : σ → Prop) (inv : σ → List ρ → Prop)
    (q : Queue ι σ κ ρ α ε β) : Prop where
  server : inv q.server q.served
  mem_accepted : ∀ i, q.current = some i → i ∈ q.accepted
  waiting : ∀ i ∉ q.accepted, ∀ s history, inv s history →
    (q.seats i).program.KeepsHistory S ok inv s S.fresh history
  current : ∀ i, q.current = some i →
    (q.seats i).program.KeepsHistory S ok inv q.server q.session q.served

/-- A step that only touches a client's program, and keeps what it was good for. -/
theorem Follows.setSeat (h : q.Follows S ok inv) {i : ι} {seat : Seat ρ α ε β}
    (hkeeps : ∀ s l history, (q.seats i).program.KeepsHistory S ok inv s l history →
      seat.program.KeepsHistory S ok inv s l history) : (q.setSeat i seat).Follows S ok inv := by
  refine ⟨h.server, h.mem_accepted, fun j hj s history hs => ?_, fun j hj => ?_⟩
  · by_cases hji : j = i
    · subst hji
      rw [setSeat_seats_self]
      exact hkeeps s S.fresh history (h.waiting j hj s history hs)
    · rw [setSeat_seats_of_ne hji]
      exact h.waiting j hj s history hs
  · by_cases hji : j = i
    · subst hji
      rw [setSeat_seats_self]
      exact hkeeps _ _ _ (h.current j hj)
    · rw [setSeat_seats_of_ne hji]
      exact h.current j hj

omit [DecidableEq ι] in
/-- The server turns to nobody. -/
theorem Follows.free (h : q.Follows S ok inv) (stopped : Bool) :
    ({ q with current := none, stopped := stopped } : Queue ι σ κ ρ α ε β).Follows S ok inv :=
  ⟨h.server, (fun i hi => by cases hi), h.waiting, (fun i hi => by cases hi)⟩

/-- **Every step keeps it.** -/
theorem Follows.step (h : q.Follows S ok inv) (hok : ok q.server) (hs : Step S q q') :
    q'.Follows S ok inv := by
  cases hs with
  | send hask hhere => exact h.setSeat fun s l history hkeeps => hkeeps
  | mark hmark =>
      refine h.setSeat fun s l history hkeeps => ?_
      rw [hmark] at hkeeps
      obtain ⟨past, tr, heq, hsafe⟩ := hkeeps
      exact ⟨past, _, by rw [requests_concat_inr]; exact heq, hsafe.2⟩
  | leave i => exact h.setSeat fun s l history hkeeps => hkeeps
  | @accept i hnone hrun hnew =>
      refine ⟨h.server, fun j hj => ?_, fun j hj => ?_, fun j hj => ?_⟩
      · obtain rfl := Option.some.inj hj
        exact Set.mem_insert _ _
      · exact h.waiting j fun hmem => hj (Set.mem_insert_of_mem i hmem)
      · obtain rfl := Option.some.inj hj
        exact h.waiting _ hnew _ _ h.server
  | @serve i r k hcur hask hsent hready e =>
      obtain ⟨past, tr, heq, hsafe⟩ := h.current i hcur
      rw [hask] at hsafe
      obtain ⟨hinv, hk⟩ := hsafe hok e
      have hserved : (q.history ++ [(i, r)]).map Prod.snd = past ++ requests (tr ++ [.inl r]) := by
        rw [requests_concat_inl, ← List.append_assoc, ← heq, List.map_append]
        rfl
      refine ⟨?_, h.mem_accepted, fun j hj s history hs => ?_, fun j hj => ?_⟩
      · rw [served, hserved]
        exact hinv
      · have hji : j ≠ i := fun hji => hj (hji ▸ h.mem_accepted i hcur)
        simp only [Function.update_of_ne hji]
        exact h.waiting j hj s history hs
      · obtain rfl := Option.some.inj (hcur.symm.trans hj)
        simp only [Function.update_self]
        refine ⟨past, tr ++ [Sum.inl r], hserved, ?_⟩
        cases ha : (S.serve e q.server q.session r).2.2 with
        | none => trivial
        | some a => exact hk a ha
  | hangup hcur hgone hidle => exact h.free q.stopped
  | limit hcur hfull => exact h.free q.stopped
  | stop => exact h.free true

variable (inv) in
/-- **State and history** are related in every reachable state, when each client alone keeps the
relation. -/
theorem Reachable.history_invariant (h : Reachable S ok q₀ q) (hinit : q₀.Initial)
    (hserver : inv q₀.server [])
    (hsafe : ∀ i s past, inv s past → (q₀.seats i).program.Safe S ok
      (fun s tr => inv s (past ++ requests tr)) (fun _ _ _ _ => True) s S.fresh []) :
    inv q.server q.served := by
  suffices hfollows : q.Follows S ok inv from hfollows.server
  induction h with
  | start =>
      refine ⟨?_, fun i hi => ?_, fun i _ s history hs => ?_, fun i hi => ?_⟩
      · rw [served, hinit.history]
        exact hserver
      · rw [hinit.current] at hi
        cases hi
      · exact ⟨history, [], (List.append_nil _).symm, hsafe i s history hs⟩
      · rw [hinit.current] at hi
        cases hi
  | step _ hok hs ih => exact ih.step hok hs

end Queue

end Lib
