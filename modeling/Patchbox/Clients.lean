import Patchbox.CmdApplyResult
import Patchbox.Lib.Visits

/-!
# Clients at the same time

Whether a patch is live is checked by the client, with a LIST request in front of its APPLY, and
the server takes an APPLY of a patch that is live already. That no patch is applied twice rests on
the loop of `listen_thread`: it reads the messages of one connection until it has done with it.

## Main definitions

* `Commands` — clients that each run `cmd_apply`.
* `nodup_and_alone` — no hash is applied twice, and no APPLY of another client comes between a
  client's own LIST and its APPLY.
-/

namespace Patchbox
open Lib

variable {img : Image} {info : List Byte} {ι : Type}

/-- The server, and clients that run the command. -/
abbrev Commands (ι : Type) := Queue ι Sandbox Link ClientRequest Answer ℕ Int

/-- No two live patches have the same hash. -/
def Distinct (s : Sandbox) : Prop := (s.lpPatchHead.map AppliedPatch.sha1).Nodup

instance (s : Sandbox) : Decidable (Distinct s) := inferInstanceAs (Decidable (List.Nodup _))

/-- One more patch, with a new hash, leaves them distinct. -/
theorem keptByNew_distinct : KeptByNew Distinct where
  same := by
    intro s s' hlist hdistinct
    rw [Distinct, hlist]
    exact hdistinct
  new := by
    intro s s' patch hlist hnew hdistinct
    rw [Distinct, hlist, List.map_cons, List.nodup_cons]
    refine ⟨fun hmem => hnew ?_, hdistinct⟩
    obtain ⟨ap, hap, hsha1⟩ := List.mem_map.mp hmem
    exact ⟨ap, hap, hsha1⟩

/-- The command is safe alone, on whatever file. -/
theorem safeIn_cmdApply {ok Q : Sandbox → Prop} (hQ : KeptByNew Q)
    (hash : List Byte → Bytes shaDigestLength) (filename : List Byte) (f : Option (List Byte))
    {s : Sandbox} (hq : Q s) :
    (cmdApply hash filename f).SafeIn (sandboxService img info) ok Q s Link.fresh := by
  refine ⟨[], ?_⟩
  cases f with
  | none => exact True.intro
  | some f =>
      cases hload : loadPatchFile hash filename f with
      | none =>
          rw [cmdApply, Option.bind_some, hload]
          exact True.intro
      | some p =>
          exact (safe_of_keptByNew hQ hq Link.clean_fresh hash filename hload).mono
            fun _ _ _ _ _ => True.intro

/-- Between a client's own LIST and its APPLY, every APPLY is its own. -/
def Alone (history : List (ι × ClientRequest)) : Prop :=
  ∀ i before between after buf,
    history = before ++ (i, .list) :: between ++ (i, .apply buf) :: after →
      ∀ j buf', (j, ClientRequest.apply buf') ∈ between → j = i

/-- So it is when each client has one block of the history. -/
theorem Alone.of_grouped {history : List (ι × ClientRequest)}
    (h : Grouped (history.map Prod.fst)) : Alone history := by
  intro i before between after buf heq j buf' hj
  have hids := congrArg (List.map Prod.fst) heq
  rw [List.map_append, List.map_append, List.map_cons, List.map_cons] at hids
  exact h i _ _ _ hids j (List.mem_map_of_mem hj)

/-- **In every order** of the clients' steps, no two live patches get the same hash, and between
a client's own LIST and its APPLY no APPLY of another client is processed. -/
theorem nodup_and_alone [DecidableEq ι] (hash : List Byte → Bytes shaDigestLength)
    (filename : ι → List Byte) (f : ι → Option (List Byte)) (q₀ q : Commands ι)
    (hinit : q₀.Initial)
    (hprogram : ∀ i, (q₀.seats i).program = cmdApply hash (filename i) (f i))
    (hdistinct : Distinct q₀.server)
    (hreach : Queue.Reachable (sandboxService img info)
      (fun s => s.lpPatchHead.length ≤ 15) q₀ q) :
    Distinct q.server ∧ Alone q.history := by
  refine ⟨hreach.invariant hinit hdistinct fun i s hs => ?_,
    Alone.of_grouped (hreach.grouped hinit)⟩
  rw [hprogram i]
  exact safeIn_cmdApply keptByNew_distinct hash (filename i) (f i) hs

/-- The ids of the requests in a trace. -/
def askedIds (tr : List (ClientRequest ⊕ ℕ)) : List (BitVec 16) :=
  (requests tr).map ClientRequest.id

/-- Who has asked the server for what. -/
def askedBy (q : Commands ι) : List (ι × BitVec 16) :=
  q.history.map fun asked => (asked.1, asked.2.id)

theorem askedBy_of_visited {η : Type} {S : Service Sandbox Link ClientRequest Answer η}
    {env : ℕ → η} {p : Command Int} {q q' : Commands ι} {i : ι} (h : q.Visited S env p i q') :
    askedBy q' = askedBy q ++
      (askedIds (p.run S env q.server S.fresh).1).map (Prod.mk i) := by
  rw [askedBy, h.history, List.map_append, List.map_map, askedIds, List.map_map]
  rfl

/-- Two clients that are served to their end, one after the other: the state between them, and the
one behind them. -/
theorem exists_twoVisits {η : Type} {S : Service Sandbox Link ClientRequest Answer η}
    {ok : Sandbox → Prop} [DecidablePred ok] [DecidablePred S.ready] {env : ℕ → η}
    {q₀ : Commands Bool} (hinit : q₀.Initial) (hrunning : q₀.stopped = false) (hok : ok q₀.server)
    {p : Bool → Command Int} (hseat : ∀ i, q₀.seats i = ⟨p i, false, false⟩)
    (hfirst : (p true).attended S ok env q₀.server S.fresh = true) {b : Int} {s : Sandbox}
    {l : Link}
    (hrun : ((p true).run S env q₀.server S.fresh).2 = some (b, s, l))
    (hsecond : (p false).attended S ok env s S.fresh = true) :
    ∃ q₁ q, Queue.Reachable S ok q₀ q₁ ∧ q₁.server = s ∧ Queue.Reachable S ok q₀ q ∧
      askedBy q = (askedIds ((p true).run S env q₀.server S.fresh).1).map (Prod.mk true) ++
        (askedIds ((p false).run S env s S.fresh).1).map (Prod.mk false) ∧
      ∃ b' l', ((p false).run S env s S.fresh).2 = some (b', q.server, l') := by
  obtain ⟨q₁, hreach₁, hok₁, hvisit₁⟩ := Queue.Reachable.visit (i := true) .start hinit.current
    hrunning (hinit.accepted ▸ Set.notMem_empty _) (hseat true) hok hfirst
  obtain ⟨b₁, l₁, hreturns⟩ := hvisit₁.returns
  obtain rfl : s = q₁.server := by
    rw [hrun] at hreturns
    exact (Prod.mk.inj (Prod.mk.inj (Option.some.inj hreturns)).2).1
  have hwaits : false ∉ q₁.accepted := by
    rw [hvisit₁.accepted, hinit.accepted]
    simp
  obtain ⟨q, hreach, -, hvisit⟩ := hreach₁.visit (i := false) hvisit₁.current
    (hvisit₁.stopped.trans hrunning) hwaits
    ((hvisit₁.others false (by decide)).trans (hseat false)) hok₁ hsecond
  have hempty : askedBy q₀ = [] := by
    rw [askedBy, hinit.history, List.map_nil]
  refine ⟨q₁, q, hreach₁, rfl, hreach, ?_, hvisit.returns⟩
  rw [askedBy_of_visited hvisit, askedBy_of_visited hvisit₁, hempty, List.nil_append]

/-- Two clients with the same file. -/
def twoCommands (hash : List Byte → Bytes shaDigestLength) : Commands Bool where
  server := Sandbox.init (fun _ => 0) fun _ => 0
  session := Link.fresh
  current := none
  accepted := ∅
  stopped := false
  seats := fun _ => ⟨cmdApply hash [] (some (storedPatch.encode hash)), false, false⟩
  history := []

theorem twoCommands_seats (hash : List Byte → Bytes shaDigestLength) (i : Bool) :
    (twoCommands hash).seats i =
      ⟨cmdApply hash [] (some (storedPatch.encode hash)), false, false⟩ := by
  rw [twoCommands]

theorem initial_twoCommands (hash : List Byte → Bytes shaDigestLength) :
    (twoCommands hash).Initial := ⟨rfl, rfl, rfl⟩

/-- The command is served to its end by a server without patches, and then by the one that it
leaves. -/
theorem served_twoCommands {hash : List Byte → Bytes shaDigestLength}
    (hhash : hash = fun l _ => l.headD 0) {command : Command Int}
    (hcommand : command = cmdApply hash [] (some (storedPatch.encode hash))) :
    command.attended (sandboxService sampleImage sampleInfo) (fun s => s.lpPatchHead.length ≤ 15)
        (fun _ => sampleSystemEnv) (twoCommands hash).server Link.fresh = true ∧
      askedIds (command.run (sandboxService sampleImage sampleInfo) (fun _ => sampleSystemEnv)
          (twoCommands hash).server Link.fresh).1 =
        [sandboxMsgGetBld, sandboxMsgList, sandboxMsgApply, sandboxMsgList] ∧
      ∃ b s l, (command.run (sandboxService sampleImage sampleInfo) (fun _ => sampleSystemEnv)
            (twoCommands hash).server Link.fresh).2 = some (b, s, l) ∧
        command.attended (sandboxService sampleImage sampleInfo)
          (fun s => s.lpPatchHead.length ≤ 15) (fun _ => sampleSystemEnv) s Link.fresh = true ∧
        askedIds (command.run (sandboxService sampleImage sampleInfo) (fun _ => sampleSystemEnv)
          s Link.fresh).1 = [sandboxMsgGetBld, sandboxMsgList, sandboxMsgList] ∧
        (command.run (sandboxService sampleImage sampleInfo) (fun _ => sampleSystemEnv)
          s Link.fresh).2.map (fun r => r.2.1.lpPatchHead.length) = some 1 := by
  have hload := @loadPatchFile_of_encode hash [] storedPatch (.inr (.inl rfl))
    ⟨by decide, by decide⟩
  rw [cmdApply_of_load hload] at hcommand
  subst hhash
  have hnext : (command.run (sandboxService sampleImage sampleInfo) (fun _ => sampleSystemEnv)
      (twoCommands fun l _ => l.headD 0).server Link.fresh).2.map (fun r =>
        (command.attended (sandboxService sampleImage sampleInfo)
            (fun s => s.lpPatchHead.length ≤ 15) (fun _ => sampleSystemEnv) r.2.1 Link.fresh,
          askedIds (command.run (sandboxService sampleImage sampleInfo)
            (fun _ => sampleSystemEnv) r.2.1 Link.fresh).1,
          (command.run (sandboxService sampleImage sampleInfo) (fun _ => sampleSystemEnv)
            r.2.1 Link.fresh).2.map fun r => r.2.1.lpPatchHead.length)) =
      some (true, [sandboxMsgGetBld, sandboxMsgList, sandboxMsgList], some 1) := by
    subst hcommand
    decide +kernel
  obtain ⟨⟨b, s, l⟩, hrun, hall⟩ := Option.map_eq_some_iff.mp hnext
  obtain ⟨hattended, hrest⟩ := Prod.mk.inj hall
  obtain ⟨hids, hone⟩ := Prod.mk.inj hrest
  refine ⟨?_, ?_, b, s, l, hrun, hattended, hids, hone⟩
  · subst hcommand
    decide +kernel
  · subst hcommand
    decide +kernel

/-- One client applies the patch, and the other finds that it is live. -/
theorem nodup_and_alone_twoCommands :
    let hash : List Byte → Bytes shaDigestLength := fun l _ => l.headD 0
    ∃ q, Queue.Reachable (sandboxService sampleImage sampleInfo)
        (fun s => s.lpPatchHead.length ≤ 15) (twoCommands hash) q ∧
      askedBy q = [(true, sandboxMsgGetBld), (true, sandboxMsgList), (true, sandboxMsgApply),
        (true, sandboxMsgList), (false, sandboxMsgGetBld), (false, sandboxMsgList),
        (false, sandboxMsgList)] ∧
      q.server.lpPatchHead.length = 1 ∧ Distinct q.server ∧ Alone q.history := by
  intro hash
  have hprogram : ∀ i, ((twoCommands hash).seats i).program =
      cmdApply hash [] (some (storedPatch.encode hash)) := fun i => by
    rw [twoCommands_seats]
  obtain ⟨hfirst, hids₁, b, s, l, hrun₁, hsecond, hids₂, hone⟩ := @served_twoCommands hash rfl _ rfl
  obtain ⟨q₁, q, -, -, hreach, hasked, b', l', hrun⟩ := exists_twoVisits
    (initial_twoCommands hash) rfl (Nat.zero_le _) (twoCommands_seats hash) hfirst hrun₁ hsecond
  have hfresh : (sandboxService sampleImage sampleInfo).fresh = Link.fresh := rfl
  rw [hfresh] at hasked hrun
  rw [hids₁, hids₂] at hasked
  rw [hrun] at hone
  exact ⟨q, hreach, hasked, Option.some.inj hone, nodup_and_alone hash (fun _ => [])
    (fun _ => some (storedPatch.encode hash)) (twoCommands hash) q (initial_twoCommands hash)
    hprogram List.nodup_nil hreach⟩

end Patchbox
