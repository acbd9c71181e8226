import Mathlib.Logic.Function.Basic

/-!
# Resources with one owner among their holders

Everyone holds at most one resource, and some holders own what they hold. An owner that leaves gives the resource
back, whoever else holds it; the others just leave. As long as an owner leaves last (`LastOwner`), a resource is given
back once, when its last holder has left (`Settled`), because each one that is out has exactly one owner (`Sound`).
An owner that leaves before the others breaks this at once.
-/

namespace Ownership

open Function

/-- `back r` counts how often `r` has been given back. -/
@[ext]
structure Holding (τ ρ : Type) where
  holds : τ → Option ρ
  owns : τ → Bool
  back : ρ → Nat
  issued : ρ → Prop

variable {τ ρ : Type} [DecidableEq τ] [DecidableEq ρ]

namespace Holding

section

variable (h : Holding τ ρ) (t : τ) (r : ρ)

def leave : Holding τ ρ :=
  { h with
    holds := update h.holds t none
    back := match h.holds t with
      | some r => if h.owns t then update h.back r (h.back r + 1) else h.back
      | none => h.back }

def join (o : Option ρ) (owner : Bool) : Holding τ ρ :=
  { h with holds := update h.holds t o, owns := update h.owns t owner }

def issue (n : Nat) : Holding τ ρ :=
  { h with back := update h.back r n, issued := fun x => x = r ∨ h.issued x }

def Settled : Prop :=
  ∀ r, h.issued r → ((∃ t, h.holds t = some r) → h.back r = 0) ∧ ((∀ t, h.holds t ≠ some r) → h.back r = 1)

def LastOwner : Prop := ∀ r, h.holds t = some r → h.owns t → ∀ u, u ≠ t → h.holds u ≠ some r

def Owned : Prop :=
  h.back r = 0 ∧ ∃ t, h.holds t = some r ∧ h.owns t ∧ ∀ u, h.holds u = some r → h.owns u → u = t

def Returned : Prop := h.back r = 1 ∧ ∀ t, h.holds t ≠ some r

structure Sound : Prop where
  issued : ∀ t r, h.holds t = some r → h.issued r
  out : ∀ r, h.issued r → h.Owned r ∨ h.Returned r

end

variable {h h' : Holding τ ρ} {t : τ} {r r' : ρ} {o : Option ρ}

omit [DecidableEq ρ] [DecidableEq τ] in
theorem Sound.settled (hs : h.Sound) : h.Settled := by
  intro r hr
  rcases hs.out r hr with ⟨hb, t, ht, -⟩ | ⟨hb, hno⟩
  · exact ⟨fun _ => hb, fun hno => absurd ht (hno t)⟩
  · exact ⟨fun ⟨t, ht⟩ => absurd ht (hno t), fun _ => hb⟩

omit [DecidableEq ρ] [DecidableEq τ] in
theorem out_congr (hout : h.Owned r ∨ h.Returned r) (hb : h'.back r = h.back r)
    (hh : ∀ u, h'.holds u = some r ↔ h.holds u = some r)
    (ho : ∀ u, h.holds u = some r → h'.owns u = h.owns u) : h'.Owned r ∨ h'.Returned r := by
  rcases hout with ⟨h0, t, ht, hown, huniq⟩ | ⟨h1, hno⟩
  · refine .inl ⟨hb.trans h0, t, (hh t).2 ht, (ho t ht).trans hown, fun u hu hou => ?_⟩
    have hu := (hh u).1 hu
    exact huniq u hu ((ho u hu).symm.trans hou)
  · exact .inr ⟨hb.trans h1, fun t ht => hno t ((hh t).1 ht)⟩

theorem leave_holds (h : Holding τ ρ) (t u : τ) (r : ρ) :
    (h.leave t).holds u = some r ↔ u ≠ t ∧ h.holds u = some r := by
  show update h.holds t none u = some r ↔ _
  by_cases hu : u = t <;> simp [hu]

theorem leave_back_of_owner (ht : h.holds t = some r) (hown : h.owns t) : (h.leave t).back r = h.back r + 1 := by
  simp [leave, ht, hown]

theorem leave_back_of_ne (hne : h.holds t = some r → ¬ h.owns t) : (h.leave t).back r = h.back r := by
  cases ht : h.holds t with
  | none => simp [leave, ht]
  | some r' =>
    simp only [leave, ht]
    split
    · rename_i hown
      refine update_of_ne ?_ ..
      rintro rfl
      exact hne ht hown
    · rfl

theorem Sound.leave (hs : h.Sound) (hl : h.LastOwner t) : (h.leave t).Sound := by
  refine ⟨fun u r hu => hs.issued u r ((leave_holds h t u r).1 hu).2, fun r hr => ?_⟩
  by_cases hlast : h.holds t = some r ∧ h.owns t
  · -- the owner, and nobody else
    obtain ⟨ht, hown⟩ := hlast
    refine .inr ⟨?_, fun u hu => ?_⟩
    · rw [leave_back_of_owner ht hown]
      rcases hs.out r hr with ⟨h0, -⟩ | ⟨-, hno⟩
      · rw [h0]
      · exact absurd ht (hno t)
    · obtain ⟨hut, hu⟩ := (leave_holds h t u r).1 hu
      exact hl r ht hown u hut hu
  · have hback : (h.leave t).back r = h.back r := leave_back_of_ne fun ht hown => hlast ⟨ht, hown⟩
    rcases hs.out r hr with ⟨h0, w, hw, hown, huniq⟩ | ⟨h1, hno⟩
    · have hwt : w ≠ t := by
        rintro rfl
        exact hlast ⟨hw, hown⟩
      refine .inl ⟨hback.trans h0, w, (leave_holds h t w r).2 ⟨hwt, hw⟩, hown, fun u hu hou => ?_⟩
      exact huniq u ((leave_holds h t u r).1 hu).2 hou
    · exact .inr ⟨hback.trans h1, fun u hu => hno u ((leave_holds h t u r).1 hu).2⟩

theorem Sound.leave_early (hs : h.Sound) (hl : ¬ h.LastOwner t) : ∃ r u, u ≠ t ∧ h.issued r ∧
    (h.leave t).holds u = some r ∧ (h.leave t).back r = 1 := by
  simp only [LastOwner, not_forall] at hl
  obtain ⟨r, ht, hown, u, hut, hu⟩ := hl
  rw [not_not] at hu
  refine ⟨r, u, hut, hs.issued t r ht, (leave_holds h t u r).2 ⟨hut, hu⟩, ?_⟩
  rw [leave_back_of_owner ht hown]
  rcases hs.out r (hs.issued t r ht) with ⟨h0, -⟩ | ⟨-, hno⟩
  · rw [h0]
  · exact absurd ht (hno t)

omit [DecidableEq ρ] [DecidableEq τ] in
theorem Settled.back_ne (hset : h.Settled) (hr : h.issued r) {u : τ} (hu : h.holds u = some r) : h.back r ≠ 1 := by
  rw [(hset r hr).1 ⟨u, hu⟩]
  exact Nat.zero_ne_one

theorem Sound.leave_settled (hs : h.Sound) : (h.leave t).Settled ↔ h.LastOwner t := by
  refine ⟨fun hset => ?_, fun hl => (hs.leave hl).settled⟩
  by_contra hl
  obtain ⟨r, u, -, hr, hu, hb⟩ := hs.leave_early hl
  exact hset.back_ne hr hu hb

omit [DecidableEq τ] in
theorem issue_back_of_ne (h : Holding τ ρ) (n : Nat) (hne : r' ≠ r) : (h.issue r n).back r' = h.back r' :=
  update_of_ne hne ..

omit [DecidableEq τ] in
theorem Sound.spoil (hs : h.Sound) (hr : ¬ h.issued r) : (h.issue r 1).Sound := by
  refine ⟨fun u r' hu => .inr (hs.issued u r' hu), fun r' hr' => ?_⟩
  by_cases hne : r' = r
  · subst hne
    exact .inr ⟨update_self .., fun u hu => hr (hs.issued u r' hu)⟩
  · exact out_congr (hs.out r' (hr'.resolve_left hne)) (issue_back_of_ne h 1 hne) (fun _ => .rfl) fun _ _ => rfl

omit [DecidableEq ρ] in
theorem join_holds_of_ne (h : Holding τ ρ) (b : Bool) (ht : h.holds t = none) (ho : o ≠ some r) (u : τ) :
    (h.join t o b).holds u = some r ↔ h.holds u = some r := by
  show update h.holds t o u = some r ↔ _
  by_cases hu : u = t
  · subst hu
    simp [ht, ho]
  · simp [hu]

omit [DecidableEq ρ] in
theorem join_owns_of_holds (h : Holding τ ρ) (o : Option ρ) (b : Bool) (ht : h.holds t = none) {u : τ}
    (hu : h.holds u = some r) : (h.join t o b).owns u = h.owns u := by
  refine update_of_ne ?_ ..
  rintro rfl
  cases ht.symm.trans hu

theorem Sound.open (hs : h.Sound) (hr : ¬ h.issued r) (ht : h.holds t = none) :
    ((h.issue r 0).join t (some r) true).Sound := by
  have ht' : (h.issue r 0).holds t = none := ht
  have hholds : ∀ u r', r' ≠ r → (((h.issue r 0).join t (some r) true).holds u = some r' ↔ h.holds u = some r') :=
    fun u r' hne => join_holds_of_ne _ true ht' (fun e => hne (Option.some.inj e).symm) u
  refine ⟨fun u r' hu => ?_, fun r' hr' => ?_⟩
  · by_cases hne : r' = r
    · exact .inl hne
    · exact .inr (hs.issued u r' ((hholds u r' hne).1 hu))
  · by_cases hne : r' = r
    · subst hne
      refine .inl ⟨update_self .., t, update_self .., update_self .., fun u hu _ => ?_⟩
      by_contra hut
      have hu : h.holds u = some r' := (update_of_ne hut ..).symm.trans hu
      exact hr (hs.issued u r' hu)
    · exact out_congr (hs.out r' (hr'.resolve_left hne)) (issue_back_of_ne h 0 hne) (fun u => hholds u r' hne)
        fun u hu => join_owns_of_holds _ _ true ht' hu

theorem Sound.share (hs : h.Sound) (ht : h.holds t = none) (ho : ∀ r, o = some r → ∃ p, h.holds p = some r) :
    (h.join t o false).Sound := by
  refine ⟨fun u r hu => ?_, fun r hr => ?_⟩
  · by_cases hr : o = some r
    · obtain ⟨p, hp⟩ := ho r hr
      exact hs.issued p r hp
    · exact hs.issued u r ((join_holds_of_ne h false ht hr u).1 hu)
  · by_cases hor : o = some r
    · -- the resource is out, and its owner stays the only one
      obtain ⟨p, hp⟩ := ho r hor
      rcases hs.out r hr with ⟨h0, w, hw, hown, huniq⟩ | ⟨-, hno⟩
      · have hwt : w ≠ t := by
          rintro rfl
          cases ht.symm.trans hw
        refine .inl ⟨h0, w, (update_of_ne hwt ..).trans hw, (update_of_ne hwt ..).trans hown, fun u hu hou => ?_⟩
        have hut : u ≠ t := by
          rintro rfl
          have hou : update h.owns u false u := hou
          simp at hou
        exact huniq u ((update_of_ne hut ..).symm.trans hu) ((update_of_ne hut ..).symm.trans hou)
      · exact absurd hp (hno p)
    · exact out_congr (hs.out r hr) rfl (join_holds_of_ne h false ht hor) fun u hu => join_owns_of_holds h o false ht hu

theorem Sound.reopen_settled (hs : h.Sound) (hr : ¬ h.issued r) :
    (((h.leave t).issue r 0).join t (some r) true).Settled ↔ h.LastOwner t := by
  have hnone : (h.leave t).holds t = none := update_self ..
  refine ⟨fun hset => ?_, fun hl => ((hs.leave hl).open hr hnone).settled⟩
  by_contra hl
  obtain ⟨r', u, hut, hr', hu, hb⟩ := hs.leave_early hl
  have hne : r' ≠ r := fun e => hr (e ▸ hr')
  refine hset.back_ne (.inr hr') (u := u) ?_ ?_
  · exact (update_of_ne hut ..).trans hu
  · exact (issue_back_of_ne _ 0 hne).trans hb

end Holding

end Ownership
