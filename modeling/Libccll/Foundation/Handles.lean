import Mathlib.Data.List.Basic
import Mathlib.Data.List.Nodup

/-! Programs that are given handles, use them and give them back, next to a state of their own, and
rules for what they own at their end.
-/

namespace Foundation.Handles

/-- What it is a handle of, and a number that no other handle ever has. -/
structure Handle (κ : Type) where
  kind : κ
  num : Nat
  deriving DecidableEq

/-- The live handles; `misused` tells that one was used or given back that was not live. -/
structure Ledger (κ : Type) where
  live : List (Handle κ)
  next : Nat
  misused : Bool
  below : ∀ h ∈ live, h.num < next
  nodup : live.Nodup

/-- A program with a state `σ`. -/
abbrev Program (κ σ α : Type) := StateM (Ledger κ × σ) α

variable {κ σ α β : Type}

/-- Nothing is live, and nothing ever was. -/
def Ledger.empty : Ledger κ where
  live := []
  next := 0
  misused := false
  below := nofun
  nodup := List.nodup_nil

/-- A new handle. -/
def Ledger.add (l : Ledger κ) (kind : κ) : Ledger κ where
  live := ⟨kind, l.next⟩ :: l.live
  next := l.next + 1
  misused := l.misused
  below h member := by
    rcases List.mem_cons.mp member with rfl | old
    · exact Nat.lt_succ_self _
    · exact Nat.lt_succ_of_lt (l.below h old)
  nodup := List.nodup_cons.mpr ⟨fun old => Nat.lt_irrefl _ (l.below _ old), l.nodup⟩

/-- A call that delivers a handle if it succeeds. -/
def acquire (kind : κ) (ok : Bool) : Program κ σ (Option (Handle κ)) := fun (l, w) =>
  if ok = true then (some ⟨kind, l.next⟩, (l.add kind, w)) else (none, (l, w))

/-- The state changes. -/
def update (f : σ → σ) : Program κ σ Unit := fun (l, w) => ((), (l, f w))

-----------------------------------------------------------------------------------------
-- What a program owns at its end
-----------------------------------------------------------------------------------------

/-- Next to what was live before, these handles are. -/
structure Owns (base : List (Handle κ)) (hs : List (Handle κ)) (l : Ledger κ) : Prop where
  live : l.live.Perm (hs ++ base)
  proper : l.misused = false

/-- Whatever else is live, a program that owns these handles misuses none, and what it answers, owns
and leaves as state meets the condition.
-/
def Meets (program : Program κ σ α) (hs : List (Handle κ)) (w : σ)
    (post : α → List (Handle κ) → σ → Prop)
    : Prop :=
  ∀ base l,
    Owns base hs l
      → ∃ hs',
        Owns base hs' (program (l, w)).2.1
        ∧ post (program (l, w)).1 hs' (program (l, w)).2.2

variable {program : Program κ σ α} {hs hs' base : List (Handle κ)} {w : σ} {l : Ledger κ}
variable {post : α → List (Handle κ) → σ → Prop} {h : Handle κ} {kind : κ} {ok : Bool}

theorem Owns.perm (owns : Owns base hs l) (same : hs.Perm hs') : Owns base hs' l :=
  ⟨owns.live.trans (same.append_right base), owns.proper⟩

theorem Owns.mem (owns : Owns base hs l) (member : h ∈ hs) : h ∈ l.live :=
  owns.live.mem_iff.mpr (List.mem_append_left base member)

/-- The handles may be named in any order. -/
theorem Meets.perm (same : hs.Perm hs') (meets : Meets program hs' w post)
    : Meets program hs w post :=
  fun base l owns => meets base l (owns.perm same)

theorem Meets.mono {post' : α → List (Handle κ) → σ → Prop} (meets : Meets program hs w post)
    (weaker : ∀ a hs' w', post a hs' w' → post' a hs' w')
    : Meets program hs w post' := by
  intro base l owns
  obtain ⟨hs', owns', holds⟩ := meets base l owns
  exact ⟨hs', owns', weaker _ _ _ holds⟩

theorem Meets.pure {a : α} (holds : post a hs w) : Meets (Pure.pure a) hs w post :=
  fun _ _ owns => ⟨hs, owns, holds⟩

theorem Meets.bind {next : α → Program κ σ β} {post : β → List (Handle κ) → σ → Prop}
    (first : Meets program hs w fun a hs' w' => Meets (next a) hs' w' post)
    : Meets (program >>= next) hs w post := by
  intro base l owns
  obtain ⟨hs', owns', later⟩ := first base l owns
  exact later base _ owns'

theorem Meets.ite {c : Prop} [Decidable c] {program' : Program κ σ α}
    (yes : c → Meets program hs w post) (no : ¬c → Meets program' hs w post)
    : Meets (if c then program else program') hs w post := by
  split
  · rename_i holds
    exact yes holds
  · rename_i fails
    exact no fails

theorem Meets.acquire {post : Option (Handle κ) → List (Handle κ) → σ → Prop}
    (refused : ok = false → post none hs w)
    (granted : ok = true → ∀ h, h.kind = kind → post (some h) (h :: hs) w)
    : Meets (acquire kind ok) hs w post := by
  intro base l owns
  cases ok with
  | false => exact ⟨hs, owns, refused rfl⟩
  | true =>
      have live : (l.add kind).live.Perm (⟨kind, l.next⟩ :: hs ++ base) := owns.live.cons _
      exact ⟨_, ⟨live, owns.proper⟩, granted rfl ⟨kind, l.next⟩ rfl⟩

theorem Meets.update {f : σ → σ} {post : Unit → List (Handle κ) → σ → Prop}
    (later : post () hs (f w))
    : Meets (update f) hs w post :=
  fun _ _ owns => ⟨hs, owns, later⟩

-----------------------------------------------------------------------------------------
-- Using handles and giving them back
-----------------------------------------------------------------------------------------

def Ledger.misuse (l : Ledger κ) : Ledger κ := { l with misused := true }

variable [DecidableEq κ]

/-- A handle that is given back. -/
def Ledger.remove (l : Ledger κ) (h : Handle κ) : Ledger κ where
  live := l.live.erase h
  next := l.next
  misused := l.misused
  below h member := l.below h (List.mem_of_mem_erase member)
  nodup := l.nodup.erase h

/-- A call that is given the handle. -/
def use (h : Handle κ) : Program κ σ Unit := fun (l, w) =>
  if h ∈ l.live then ((), (l, w)) else ((), (l.misuse, w))

/-- The handle is freed, or handed to a new owner. -/
def release (h : Handle κ) : Program κ σ Unit := fun (l, w) =>
  if h ∈ l.live then ((), (l.remove h, w)) else ((), (l.misuse, w))

theorem Meets.use {post : Unit → List (Handle κ) → σ → Prop} (member : h ∈ hs)
    (later : post () hs w)
    : Meets (use h) hs w post := by
  intro base l owns
  have used : Handles.use h (l, w) = ((), (l, w)) := if_pos (owns.mem member)
  rw [used]
  exact ⟨hs, owns, later⟩

/-- What is given back is not owned any more. -/
theorem Meets.release {post : Unit → List (Handle κ) → σ → Prop} (rest : List (Handle κ))
    (owned : hs.Perm (h :: rest)) (later : post () rest w)
    : Meets (release h) hs w post := by
  intro base l owns
  have owns' := owns.perm owned
  have released : Handles.release h (l, w) = ((), (l.remove h, w)) :=
    if_pos (owns'.mem List.mem_cons_self)
  rw [released]
  refine ⟨rest, ⟨?_, owns.proper⟩, later⟩
  have erased := owns'.live.erase h
  rwa [List.cons_append, List.erase_cons_head] at erased

end Foundation.Handles
