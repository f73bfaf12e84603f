/-
Caching with validators.

An origin has a representation of a thing, or none, and it is another one at every visit.
A client keeps what it got for each key.  When it comes back, it asks for the
representation unless that has the tag of what it keeps, and goes on with what it keeps
if it is told so.

Such a client has what one has that gets everything anew at every visit
(`revalidated_eq_downloaded`), whatever happens to the things in between, if the tags
tell the representations of a key apart that it comes across.
-/
import Mathlib.Data.List.Induction
import Mathlib.Logic.Function.Basic

namespace Revalidation

variable {V K T R : Type*}

structure Origin (V T R : Type*) where
  full : V → Option R
  /-- The answer to one who has a representation with this tag; `none` is that it is the same. -/
  ask : V → T → Option (Option R)

/-- What the answers to conditions have to do with the representation. -/
structure Origin.Sound (o : Origin V T R) (tag : R → T) : Prop where
  same : ∀ {v t}, o.ask v t = none → ∃ r, o.full v = some r ∧ tag r = t
  other : ∀ {v t answer}, o.ask v t = some answer → answer = o.full v

/-- What a client keeps, by key. -/
abbrev Kept (K R : Type*) := K → Option R

section

variable (o : Origin V T R) (tag : R → T) (key : V → K)

/-- The tags tell apart the representations of a key at these visits. -/
def TagsApart (visits : List V) : Prop :=
  ∀ v ∈ visits, ∀ v' ∈ visits, key v = key v' → ∀ r ∈ o.full v, ∀ r' ∈ o.full v', tag r = tag r' → r = r'

variable [DecidableEq K]

def download (kept : Kept K R) (v : V) : Kept K R := Function.update kept (key v) (o.full v)

def revalidate (kept : Kept K R) (v : V) : Kept K R :=
  Function.update kept (key v) (match kept (key v) with
    | none => o.full v
    | some r => (o.ask v (tag r)).getD (some r))

def downloaded (visits : List V) : Kept K R := visits.foldl (download o key) fun _ => none

def revalidated (visits : List V) : Kept K R := visits.foldl (revalidate o tag key) fun _ => none

end

variable {o : Origin V T R} {tag : R → T} {key : V → K}

theorem TagsApart.of_append {visits more : List V} (h : TagsApart o tag key (visits ++ more)) :
    TagsApart o tag key visits :=
  fun v hv v' hv' => h v (List.mem_append_left _ hv) v' (List.mem_append_left _ hv')

variable [DecidableEq K]

theorem downloaded_concat (visits : List V) (v : V) :
    downloaded o key (visits ++ [v]) = download o key (downloaded o key visits) v := List.foldl_append ..

theorem revalidated_concat (visits : List V) (v : V) :
    revalidated o tag key (visits ++ [v]) = revalidate o tag key (revalidated o tag key visits) v :=
  List.foldl_append ..

/-- What is kept was the representation at a visit. -/
theorem downloaded_origin {visits : List V} : ∀ {k : K} {r : R}, downloaded o key visits k = some r →
    ∃ v ∈ visits, key v = k ∧ o.full v = some r := by
  induction visits using List.reverseRecOn with
  | nil =>
      intro k r h
      cases h
  | append_singleton visits v ih =>
      intro k r h
      rw [downloaded_concat, download, Function.update_apply] at h
      split at h
      · next hk => exact ⟨v, by simp, hk.symm, h⟩
      · obtain ⟨v', hv', hkey, hfull⟩ := ih h
        exact ⟨v', List.mem_append_left _ hv', hkey, hfull⟩

/-- One visit with the same kept beforehand. -/
theorem revalidate_eq_download (hs : o.Sound tag) {kept : Kept K R} {v : V}
    (h : ∀ r, kept (key v) = some r → ∀ r' ∈ o.full v, tag r' = tag r → r' = r) :
    revalidate o tag key kept v = download o key kept v := by
  unfold revalidate download
  cases hkept : kept (key v) with
  | none => rfl
  | some r =>
      dsimp only
      cases hask : o.ask v (tag r) with
      | none =>
          obtain ⟨r', hfull, htag⟩ := hs.same hask
          rw [hfull, h r hkept r' hfull htag]
          rfl
      | some answer =>
          rw [hs.other hask]
          rfl

/-- **Revalidating is as good as downloading.** -/
theorem revalidated_eq_downloaded (hs : o.Sound tag) {visits : List V} (h : TagsApart o tag key visits) :
    revalidated o tag key visits = downloaded o key visits := by
  induction visits using List.reverseRecOn with
  | nil => rfl
  | append_singleton visits v ih =>
      rw [revalidated_concat, downloaded_concat, ih h.of_append]
      refine revalidate_eq_download hs fun r hkept r' hfull htag => ?_
      obtain ⟨v', hv', hkey, hfull'⟩ := downloaded_origin hkept
      exact h v (by simp) v' (List.mem_append_left _ hv') hkey.symm r' hfull r hfull' htag

/-- Nothing is sent exactly if the client has it already, where a tag always spares an answer. -/
theorem ask_eq_none_iff (hs : o.Sound tag) {visits : List V} {v : V} (h : TagsApart o tag key (visits ++ [v]))
    (hspares : ∀ r ∈ o.full v, o.ask v (tag r) = none) {r : R}
    (hkept : revalidated o tag key visits (key v) = some r) :
    o.ask v (tag r) = none ↔ o.full v = some r := by
  refine ⟨fun hask => ?_, hspares r⟩
  rw [revalidated_eq_downloaded hs h.of_append] at hkept
  obtain ⟨v', hv', hkey, hfull'⟩ := downloaded_origin hkept
  obtain ⟨r', hfull, htag⟩ := hs.same hask
  rw [hfull, h v (by simp) v' (List.mem_append_left _ hv') hkey.symm r' hfull r hfull' htag]

end Revalidation
