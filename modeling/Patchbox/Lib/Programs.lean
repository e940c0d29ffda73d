import Patchbox.Lib.Sessions

/-!
# What a client asks, and in which order

Two facts about a client do not depend on the server: which questions it ever asks, and
which of them are its last. What each question of a kind preserves of server and session is
preserved by a client that asks no other. These facts come beside those proved with
`Client.Safe`, and are put together with them by the rule of conjunction.

## Main definitions

* `Service.restrict` — the same server in fewer surroundings.
* `Client.Safe.and`, `Client.Safe.restrict` — two more rules.
* `Client.Asks` — all questions are of a kind.
* `Client.Ends` — after a question of a kind comes no other.
-/

namespace Lib

variable {ρ α ε β γ σ κ η η' : Type}

/-- The server in surroundings that are among the others. -/
def Service.restrict (S : Service σ κ ρ α η) (f : η' → η) : Service σ κ ρ α η' where
  serve e s l r := S.serve (f e) s l r
  fresh := S.fresh
  ready := S.ready
  full := S.full

namespace Client

variable {S : Service σ κ ρ α η} {ok : σ → Prop} {inv inv' : σ → List (ρ ⊕ ε) → Prop}
  {post post' : β → σ → κ → List (ρ ⊕ ε) → Prop} {p : Client ρ α ε β} {s : σ} {l : κ}
  {tr : List (ρ ⊕ ε)} {R : ρ → Prop}

/-! ## More rules -/

/-- What is safe in all surroundings is safe in some. -/
theorem Safe.restrict (h : p.Safe S ok inv post s l tr) (f : η' → η) :
    p.Safe (S.restrict f) ok inv post s l tr := by
  induction p generalizing s l tr with
  | done b => exact h
  | ask r k ih =>
      intro hok e
      obtain ⟨hinv, hk⟩ := h hok (f e)
      exact ⟨hinv, fun a ha => ih a (hk a ha)⟩
  | mark e p ih => exact ⟨h.1, ih h.2⟩
  | forever => trivial

/-- **Conjunction.** -/
theorem Safe.and (h : p.Safe S ok inv post s l tr) (h' : p.Safe S ok inv' post' s l tr) :
    p.Safe S ok (fun s tr => inv s tr ∧ inv' s tr) (fun b s l tr => post b s l tr ∧ post' b s l tr)
      s l tr := by
  induction p generalizing s l tr with
  | done b => exact ⟨h, h'⟩
  | ask r k ih =>
      intro hok e
      obtain ⟨hinv, hk⟩ := h hok e
      obtain ⟨hinv', hk'⟩ := h' hok e
      exact ⟨⟨hinv, hinv'⟩, fun a ha => ih a (hk a ha) (hk' a ha)⟩
  | mark e p ih => exact ⟨⟨h.1, h'.1⟩, ih h.2 h'.2⟩
  | forever => trivial

/-- Weaken the invariant. -/
theorem Safe.mono_inv (hinv : ∀ s tr, inv s tr → inv' s tr) (h : p.Safe S ok inv post s l tr) :
    p.Safe S ok inv' post s l tr := by
  induction p generalizing s l tr with
  | done b => exact h
  | ask r k ih =>
      intro hok e
      obtain ⟨hi, hk⟩ := h hok e
      exact ⟨hinv _ _ hi, fun a ha => ih a (hk a ha)⟩
  | mark e p ih => exact ⟨hinv _ _ h.1, ih h.2⟩
  | forever => trivial

/-- What a client does with the answer to its question. -/
theorem run_ask_of_serve {r : ρ} {k : α → Client ρ α ε β} {env : ℕ → η} {s' : σ} {l' : κ} {a : α}
    (h : S.serve (env 0) s l r = (s', l', some a)) :
    ((Client.ask r k).run S env s l).2 = ((k a).run S (fun n => env (n + 1)) s' l').2 := by
  simp only [Client.run, h]

/-- The invariant of the questions holds at the end as well. -/
theorem Safe.and_inv (hinv : inv s tr) (h : p.Safe S ok inv post s l tr) :
    p.Safe S ok inv (fun b s l tr => post b s l tr ∧ inv s tr) s l tr := by
  induction p generalizing s l tr with
  | done b => exact ⟨h, hinv⟩
  | ask r k ih =>
      intro hok e
      obtain ⟨hi, hk⟩ := h hok e
      exact ⟨hi, fun a ha => ih a hi (hk a ha)⟩
  | mark e p ih => exact ⟨h.1, ih h.1 h.2⟩
  | forever => trivial

/-! ## Which questions are asked -/

/-- Every question of the client is of the kind, and every result has the property. -/
def Asks (R : ρ → Prop) (Q : β → Prop) : Client ρ α ε β → Prop
  | .done b => Q b
  | .ask r k => R r ∧ ∀ a, (k a).Asks R Q
  | .mark _ p => p.Asks R Q
  | .forever => True

theorem Asks.bind {Q : β → Prop} {Q' : γ → Prop} {f : β → Client ρ α ε γ} (h : p.Asks R Q)
    (hf : ∀ b, Q b → (f b).Asks R Q') : (p.bind f).Asks R Q' := by
  induction p with
  | done b => exact hf b h
  | ask r k ih => exact ⟨h.1, fun a => ih a (h.2 a)⟩
  | mark e p ih => exact ih h
  | forever => trivial

theorem Asks.mono {R' : ρ → Prop} {Q Q' : β → Prop} (hR : ∀ r, R r → R' r) (hQ : ∀ b, Q b → Q' b)
    (h : p.Asks R Q) : p.Asks R' Q' := by
  induction p with
  | done b => exact hQ b h
  | ask r k ih => exact ⟨hR r h.1, fun a => ih a (h.2 a)⟩
  | mark e p ih => exact ih h
  | forever => trivial

/-- Every question is of some kind. -/
theorem asks_all (p : Client ρ α ε β) : p.Asks (fun _ => True) fun _ => True := by
  induction p with
  | done b => trivial
  | ask r k ih => exact ⟨trivial, ih⟩
  | mark e p ih => exact ih
  | forever => trivial

/-- **What the questions of a kind preserve**, where they are answered, a client that asks no
other preserves. -/
theorem Asks.safe {Q : β → Prop} {I : σ → κ → List (ρ ⊕ ε) → Prop}
    (hinv : ∀ s l tr, I s l tr → inv s tr)
    (hmark : ∀ s l tr e, I s l tr → I s l (tr ++ [.inr e]))
    (hserver : ∀ e s l tr r, R r → I s l tr → inv (S.serve e s l r).1 (tr ++ [.inl r]))
    (hserve : ∀ e s l tr r a, R r → I s l tr → (S.serve e s l r).2.2 = some a →
      I (S.serve e s l r).1 (S.serve e s l r).2.1 (tr ++ [.inl r]))
    (h : p.Asks R Q) (hI : I s l tr) :
    p.Safe S ok inv (fun b s l tr => Q b ∧ I s l tr) s l tr := by
  induction p generalizing s l tr with
  | done b => exact ⟨h, hI⟩
  | ask r k ih =>
      exact fun _ e => ⟨hserver e s l tr r h.1 hI, fun a ha =>
        ih a (h.2 a) (hserve e s l tr r a h.1 hI ha)⟩
  | mark e p ih => exact ⟨hinv _ _ _ (hmark _ _ _ e hI), ih h (hmark _ _ _ e hI)⟩
  | forever => trivial

/-! ## Which question comes last -/

/-- The client asks nothing. -/
def Silent (p : Client ρ α ε β) : Prop := p.Asks (fun _ => False) fun _ => True

/-- The client asks nothing after a question of the kind. -/
def Ends (R : ρ → Prop) : Client ρ α ε β → Prop
  | .done _ => True
  | .ask r k => ∀ a, (R r → (k a).Silent) ∧ (k a).Ends R
  | .mark _ p => p.Ends R
  | .forever => True

/-- A client that asks no question of the kind, followed by one that ends with such a question. -/
theorem Asks.bind_ends {Q : β → Prop} {f : β → Client ρ α ε γ} (h : p.Asks (fun r => ¬R r) Q)
    (hf : ∀ b, (f b).Ends R) : (p.bind f).Ends R := by
  induction p with
  | done b => exact hf b
  | ask r k ih => exact fun a => ⟨fun hr => absurd hr h.1, ih a (h.2 a)⟩
  | mark e p ih => exact ih h
  | forever => trivial

theorem Silent.ends (h : p.Silent) : p.Ends R := by
  induction p with
  | done b => trivial
  | ask r k ih => exact h.1.elim
  | mark e p ih => exact ih h
  | forever => trivial

/-- Such a client, followed by nothing. -/
theorem Ends.bind {f : β → Client ρ α ε γ} (h : p.Ends R) (hf : ∀ b, (f b).Silent) :
    (p.bind f).Ends R := by
  induction p with
  | done b => exact (hf b).ends
  | ask r k ih => exact fun a => ⟨fun hr => Asks.bind ((h a).1 hr) fun b _ => hf b, ih a (h a).2⟩
  | mark e p ih => exact ih h
  | forever => trivial

/-- A silent client leaves no question in the trace. -/
theorem Silent.not_mem_run (h : p.Silent) (env : ℕ → η) (r : ρ) :
    .inl r ∉ (p.run S env s l).1 := by
  induction p generalizing env with
  | done b => exact List.not_mem_nil
  | ask r k ih => exact h.1.elim
  | mark e p ih =>
      rw [Client.run, List.mem_cons, not_or]
      exact ⟨by simp, ih h env⟩
  | forever => exact List.not_mem_nil

/-- **The last question.** Behind a question of the kind the trace has no other. -/
theorem Ends.run (h : p.Ends R) (env : ℕ → η) {before behind : List (ρ ⊕ ε)} {r r' : ρ}
    (hr : R r) (hrun : (p.run S env s l).1 = before ++ .inl r :: behind) : .inl r' ∉ behind := by
  induction p generalizing s l env before with
  | done b => simp [Client.run] at hrun
  | ask q k ih =>
      rw [Client.run] at hrun
      generalize S.serve (env 0) s l q = out at hrun
      obtain ⟨s', l', a⟩ := out
      cases before with
      | nil =>
          cases a with
          | none =>
              obtain ⟨-, rfl⟩ := List.cons.inj hrun
              exact List.not_mem_nil
          | some a =>
              obtain ⟨hq, rfl⟩ := List.cons.inj hrun
              obtain rfl := Sum.inl.inj hq
              exact ((h a).1 hr).not_mem_run _ _
      | cons x before =>
          cases a with
          | none =>
              obtain ⟨-, htail⟩ := List.cons.inj hrun
              simp at htail
          | some a =>
              obtain ⟨-, htail⟩ := List.cons.inj hrun
              exact ih a (h a).2 _ htail
  | mark e p ih =>
      rw [Client.run] at hrun
      cases before with
      | nil => cases (List.cons.inj hrun).1
      | cons x before => exact ih h env (List.cons.inj hrun).2
  | forever => simp [Client.run] at hrun

end Client

end Lib
