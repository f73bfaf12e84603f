/-
What a failed lookup does to the cluster.

A lookup that fails is answered with no addresses, as is one that finds none, so the cluster
takes all the peers that it knew to be gone.  It changes nothing exactly where none were known,
that is, where the lookup before it failed as well or found no address.
-/
import Mahalo.Proofs.Cluster
import Mahalo.Topology

namespace Mahalo.DnsTopology

open Lts Roster MahaloCluster

variable {Addr E : Type} [DecidableEq Addr] {topology : DnsTopology} {display : Addr → String} {nodeId : Nat}

/-- What the resolver answers at a step. -/
def Label.lookupHost : Label Addr E → String → Except E (List Addr)
  | .start lookupHost _ => lookupHost
  | .poll lookupHost _ => lookupHost

/-- The order in which the set of addresses iterates. -/
def Label.order : Label Addr E → List Addr
  | .start _ order => order
  | .poll _ order => order

/-- The lookup of a step failed. -/
def Failed (topology : DnsTopology) (l : Label Addr E) : Prop := ∃ e, l.lookupHost topology.query = .error e

instance (topology : DnsTopology) (l : Label Addr E) : Decidable (Failed topology l) :=
  match h : l.lookupHost topology.query with
  | .ok _ => isFalse fun ⟨e, he⟩ => by rw [h] at he; cases he
  | .error e => isTrue ⟨e, h⟩

/-- What the last lookup found, nothing if it failed. -/
def lastFound (topology : DnsTopology) (ls : List (Label Addr E)) : List Addr :=
  MahaloCluster.lastPeers (ls.map (Label.answered topology))

/-- No lookup of a poll fails right after one that found an address. -/
def NeverAfterPeers (topology : DnsTopology) (ls : List (Label Addr E)) : Prop :=
  ∀ before lookupHost order behind, ls = before ++ .poll lookupHost order :: behind →
    Failed topology (.poll lookupHost order : Label Addr E) → lastFound topology before = []

/-- A poll whose lookup failed announces nothing, and the peers that are known stay the same. -/
def FailuresChangeNothing (topology : DnsTopology) (display : Addr → String) (nodeId : Nat)
    (ls : List (Label Addr E)) : Prop :=
  ∀ before lookupHost order behind, ls = before ++ .poll lookupHost order :: behind →
    Failed topology (.poll lookupHost order : Label Addr E) → ∀ s s',
      (topology.system display nodeId E).exec (topology.system display nodeId E).init before = some s →
      (topology.system display nodeId E).step s (.poll lookupHost order) = some s' →
      s'.events = s.events ∧ s'.sent = s.sent ∧ s'.knownPeers = s.knownPeers

/-- The sets that the lookups found, of those that did not fail. -/
def found (topology : DnsTopology) (ls : List (Label Addr E)) : List (List Addr) :=
  (ls.filter fun l => ¬Failed topology l).map Label.order

/-- What is announced by one who is told these sets, one after the other. -/
def announcements : List Addr → List (List Addr) → List (Event Addr)
  | _, [] => []
  | known, current :: rest => difference known current ++ announcements current rest

@[simp] theorem difference_nil (known : List Addr) : difference known [] = known.map .down := by
  simp [difference]

theorem announcements_concat (known : List Addr) (sets : List (List Addr)) (current : List Addr) :
    announcements known (sets ++ [current])
      = announcements known sets ++ difference (sets.getLast?.getD known) current := by
  induction sets generalizing known with
  | nil => simp [announcements]
  | cons set rest ih =>
      rw [List.cons_append, announcements, announcements, ih, List.append_assoc, List.getLast?_cons]
      rfl

omit [DecidableEq Addr] in
theorem resolve_error {lookupHost : String → Except E (List Addr)} {e : E}
    (h : lookupHost topology.query = .error e) : topology.resolve lookupHost = [] := by
  unfold resolve
  rw [h]

omit [DecidableEq Addr] in
theorem failed_peers {l : Label Addr E} (h : Failed topology l) : (l.answered topology).peers = [] := by
  obtain ⟨e, he⟩ := h
  cases l with
  | start lookupHost order => exact resolve_error he
  | poll lookupHost order => exact resolve_error he

omit [DecidableEq Addr] in
theorem order_answered (l : Label Addr E) : (l.answered topology).order = l.order := by
  cases l <;> rfl

/-- What a step announces, and what is remembered after it. -/
theorem step_difference {s s' : MahaloCluster Addr} {l : Label Addr E}
    (h : (topology.system display nodeId E).step s l = some s') :
    s'.events = s.events ++ MahaloCluster.difference s.knownBefore l.order ∧ s'.knownBefore = l.order ∧
      s'.sent = s.sent ++
        (MahaloCluster.difference s.knownBefore l.order).map (announcement display s.nodeId) := by
  obtain ⟨current, ⟨horder, -⟩, rfl⟩ := step_some h
  rw [order_answered] at horder
  rw [← horder]
  exact ⟨rfl, rfl, rfl⟩

/-- A set of no addresses iterates over none. -/
theorem failed_order {s s' : MahaloCluster Addr} {l : Label Addr E} (hfailed : Failed topology l)
    (h : (topology.system display nodeId E).step s l = some s') : l.order = [] := by
  obtain ⟨current, ⟨horder, hmem⟩, -⟩ := step_some h
  rw [order_answered] at horder
  rw [failed_peers hfailed] at hmem
  rw [← horder]
  exact List.eq_nil_iff_forall_not_mem.mpr fun a ha => List.not_mem_nil ((hmem a).mp ha)

/-- What is remembered is what the last lookup found. -/
theorem knownBefore_eq_nil_iff {ls : List (Label Addr E)} {s : MahaloCluster Addr}
    (h : (topology.system display nodeId E).exec (topology.system display nodeId E).init ls = some s) :
    s.knownBefore = [] ↔ lastFound topology ls = [] := by
  have hagrees : Agrees display nodeId (lastFound topology ls) s := agrees_run (exec_relabel .. ▸ h)
  have hknown : ∀ a, a ∈ s.knownBefore ↔ a ∈ lastFound topology ls := hagrees.known
  rw [List.eq_nil_iff_forall_not_mem, List.eq_nil_iff_forall_not_mem]
  exact forall_congr' fun a => not_congr (hknown a)

/-- **A failed poll changes nothing exactly where no peer was known.** -/
theorem failed_poll_iff {s s' : MahaloCluster Addr} {lookupHost : String → Except E (List Addr)}
    {order : List Addr} (hfailed : Failed topology (.poll lookupHost order : Label Addr E))
    (h : (topology.system display nodeId E).step s (.poll lookupHost order) = some s') :
    (s'.events = s.events ∧ s'.sent = s.sent ∧ s'.knownPeers = s.knownPeers) ↔ s.knownBefore = [] := by
  have horder : order = [] := failed_order hfailed h
  obtain ⟨hevents, hknown, hsent⟩ := step_difference h
  rw [show (Label.poll lookupHost order).order = [] from horder] at hevents hknown hsent
  rw [difference_nil] at hevents hsent
  constructor
  · rintro ⟨hsame, -, -⟩
    rw [hsame, List.self_eq_append_right, List.map_eq_nil_iff] at hevents
    exact hevents
  · intro hnone
    rw [hnone] at hevents hsent
    have hstep : MahaloCluster.step display s (.poll (topology.pollPeers lookupHost) order) = some s' := h
    obtain ⟨known, hbefore⟩ := poll_some hstep
    obtain ⟨current, -, heq⟩ := step_some hstep
    have hafter : s'.knownPeers = some current := by rw [heq]
    refine ⟨by simpa using hevents, by simpa using hsent, ?_⟩
    exact knownPeers_eq hafter hbefore (hknown.trans hnone.symm)

omit [DecidableEq Addr] in
theorem NeverAfterPeers.left {before behind : List (Label Addr E)}
    (h : NeverAfterPeers topology (before ++ behind)) : NeverAfterPeers topology before := by
  rintro front lookupHost order back rfl hfailed
  exact h front lookupHost order (back ++ behind) (by simp) hfailed

/-- The announcements of a run are those of the lookups that did not fail. -/
theorem events_run {ls : List (Label Addr E)} {s : MahaloCluster Addr}
    (h : (topology.system display nodeId E).exec (topology.system display nodeId E).init ls = some s)
    (hnever : NeverAfterPeers topology ls) :
    s.events = announcements [] (found topology ls) ∧
      s.knownBefore = (found topology ls).getLast?.getD [] := by
  induction ls using List.reverseRecOn generalizing s with
  | nil =>
      obtain rfl := Option.some.inj h
      exact ⟨rfl, rfl⟩
  | append_singleton ls l ih =>
      obtain ⟨mid, hmid, hlast⟩ := exec_concat h
      obtain ⟨hevents, hknown⟩ := ih hmid hnever.left
      obtain ⟨hsteps, hafter, -⟩ := step_difference hlast
      by_cases hfailed : Failed topology l
      · have hfound : found topology (ls ++ [l]) = found topology ls := by
          simp [found, hfailed]
        have hnone : mid.knownBefore = [] := by
          cases l with
          | start lookupHost order =>
              unfold MahaloCluster.knownBefore
              rw [start_none hlast]
              rfl
          | poll lookupHost order =>
              exact (knownBefore_eq_nil_iff hmid).mpr (hnever ls lookupHost order [] rfl hfailed)
        have horder := failed_order hfailed hlast
        rw [hfound, hsteps, hafter, horder, hnone, ← hevents, ← hknown, hnone]
        simp
      · have hfound : found topology (ls ++ [l]) = found topology ls ++ [l.order] := by
          simp [found, hfailed]
        rw [hfound, announcements_concat, ← hknown, ← hevents, List.getLast?_concat]
        exact ⟨hsteps, hafter⟩

/--
**When a failed lookup changes nothing.**  In every run of the cluster, each poll whose lookup
failed announces nothing and leaves what is known as it was, and what is broadcast is what the
other lookups alone would have announced, exactly if no lookup of a poll fails right after one
that found an address.
-/
theorem failures_change_nothing_iff {ls : List (Label Addr E)} {s : MahaloCluster Addr}
    (h : (topology.system display nodeId E).exec (topology.system display nodeId E).init ls = some s) :
    (FailuresChangeNothing topology display nodeId ls ∧
        s.events = announcements [] (found topology ls) ∧
        s.sent = (announcements [] (found topology ls)).map (announcement display nodeId)) ↔
      NeverAfterPeers topology ls := by
  constructor
  · rintro ⟨hnothing, -⟩ before lookupHost order behind rfl hfailed
    rw [exec_append] at h
    obtain ⟨mid, hmid, hrest⟩ := Option.bind_eq_some_iff.mp h
    rw [exec_cons] at hrest
    obtain ⟨after, hstep, -⟩ := Option.bind_eq_some_iff.mp hrest
    have hsame := hnothing before lookupHost order behind rfl hfailed mid after hmid hstep
    exact (knownBefore_eq_nil_iff hmid).mp ((failed_poll_iff hfailed hstep).mp hsame)
  · intro hnever
    obtain ⟨hevents, -⟩ := events_run h hnever
    have hagrees : Agrees display nodeId (lastFound topology ls) s := agrees_run (exec_relabel .. ▸ h)
    refine ⟨?_, hevents, hevents ▸ hagrees.sent⟩
    rintro before lookupHost order behind rfl hfailed mid after hmid hstep
    have hnone := hnever before lookupHost order behind rfl hfailed
    exact (failed_poll_iff hfailed hstep).mpr ((knownBefore_eq_nil_iff hmid).mpr hnone)

/-- A run whose first two lookups found nothing, the second because it failed. -/
theorem failures_change_nothing_iff_late :
    ∃ s : MahaloCluster Nat,
      ((⟨"peers.local", 4000⟩ : DnsTopology).system toString 7 Unit).exec
          ((⟨"peers.local", 4000⟩ : DnsTopology).system toString 7 Unit).init
          [.start (fun _ => .ok []) [], .poll (fun _ => .error ()) [], .poll (fun _ => .ok [2]) [2]] = some s ∧
        s.events = [.up 2] := by
  have h : ((⟨"peers.local", 4000⟩ : DnsTopology).system toString 7 Unit).exec
      ((⟨"peers.local", 4000⟩ : DnsTopology).system toString 7 Unit).init
      [.start (fun _ => .ok []) [], .poll (fun _ => .error ()) [], .poll (fun _ => .ok [2]) [2]] = some _ := rfl
  refine ⟨_, h, ?_⟩
  refine ((failures_change_nothing_iff h).mpr ?_).2.1.trans (by decide)
  rintro (_ | ⟨_, _ | ⟨_, _ | ⟨_, _⟩⟩⟩) lookupHost order behind hls hfailed
  · cases hls
  · cases hls
    rfl
  · cases hls
    obtain ⟨e, he⟩ := hfailed
    cases he
  · simp at hls

/-- The name resolves to an address, and then not at all: the peer is announced to be gone. -/
theorem failed_lookup_announced :
    ∃ s : MahaloCluster Nat,
      ((⟨"peers.local", 4000⟩ : DnsTopology).system toString 7 Unit).exec
          ((⟨"peers.local", 4000⟩ : DnsTopology).system toString 7 Unit).init
          [.start (fun _ => .ok [1]) [1], .poll (fun _ => .error ()) []] = some s ∧
        s.events = [.up 1, .down 1] ∧
        announcements [] (found ⟨"peers.local", 4000⟩
          [.start (fun _ => .ok [1]) [1], (.poll (fun _ => .error ()) [] : Label Nat Unit)]) = [.up 1] ∧
        ¬FailuresChangeNothing ⟨"peers.local", 4000⟩ toString 7
          [.start (fun _ => .ok [1]) [1], (.poll (fun _ => .error ()) [] : Label Nat Unit)] := by
  refine ⟨_, rfl, by decide, by decide, ?_⟩
  intro hnothing
  have hsame := hnothing [.start (fun _ => .ok [1]) [1]] (fun _ => .error ()) [] [] rfl ⟨(), rfl⟩ _ _ rfl rfl
  exact absurd hsame.1 (by decide)

end Mahalo.DnsTopology
