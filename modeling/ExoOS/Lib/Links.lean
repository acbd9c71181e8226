import Mathlib.Data.List.Nodup

/-!
# Intrusive singly linked lists

Nodes of a type `α` carry a link `next : α → Option α`; a list is known by its head. `Seg next h l e`: following
the links from `h` visits the nodes `l` and arrives at `e`; a `Chain` is a segment that ends. What a chain holds
is determined by its head (`Chain.unique`), and no node occurs in it twice (`Chain.nodup`). The rules for chains speak
of the links after a change only where the list can see them.

`Lists` are lists that run through the same links without sharing a node, with the rules for pushing a node and for
unlinking one whose predecessor is known. `Fifos` know their last nodes too, and a node is appended there.

`walk` is the loop along a list, with fuel: it fails on a list longer than that, a circular one for instance. `seek`
is the loop that stops at a node and remembers the one before it.
`minKey` is the loop that keeps the least key, `least` the one that keeps the first node of the least key and the
node before it.
-/

namespace Links

open Function List

variable {α : Type} {next next' : α → Option α} {h e m : Option α} {l l' l1 l2 : List α} {a p : α}

def Seg (next : α → Option α) : Option α → List α → Option α → Prop
  | h, [], e => h = e
  | h, a :: l, e => h = some a ∧ Seg next (next a) l e

def Chain (next : α → Option α) (h : Option α) (l : List α) : Prop := Seg next h l none

theorem Seg.congr (hs : Seg next h l e) (hn : ∀ x ∈ l, next' x = next x) : Seg next' h l e := by
  induction l generalizing h with
  | nil => exact hs
  | cons a l ih =>
    obtain ⟨rfl, hs⟩ := hs
    refine ⟨rfl, ?_⟩
    rw [hn a mem_cons_self]
    exact ih hs fun x hx => hn x (mem_cons_of_mem _ hx)

theorem seg_append : Seg next h (l1 ++ l2) e ↔ ∃ m, Seg next h l1 m ∧ Seg next m l2 e := by
  induction l1 generalizing h with
  | nil => simp [Seg]
  | cons a l1 ih => simp only [cons_append, Seg, ih, and_assoc, exists_and_left]

theorem Seg.relink (hs : Seg next h (l ++ [p]) e) (hn : ∀ x ∈ l, next' x = next x) :
    Seg next' h (l ++ [p]) (next' p) := by
  obtain ⟨m, hl, hp, -⟩ := seg_append.1 hs
  exact seg_append.2 ⟨m, hl.congr hn, hp, rfl⟩

namespace Chain

section

variable (hc : Chain next h l)
include hc

theorem congr (hn : ∀ x ∈ l, next' x = next x) : Chain next' h l := Seg.congr hc hn

theorem unique (hc' : Chain next h l') : l = l' := by
  induction l generalizing h l' with
  | nil =>
    cases l' with
    | nil => rfl
    | cons b l' => cases hc.symm.trans hc'.1
  | cons a l ih =>
    cases l' with
    | nil => cases hc.1.symm.trans hc'
    | cons b l' =>
      obtain ⟨rfl, hc⟩ := hc
      obtain ⟨hab, hc'⟩ := hc'
      cases hab
      rw [ih hc hc']

omit hc in
theorem mem_of_eq_on (hc : Chain next h (l1 ++ a :: l2)) (hc' : Chain next' h l')
    (hn : ∀ x ∈ l1, next' x = next x) : a ∈ l' := by
  induction l1 generalizing h l' with
  | nil =>
    cases l' with
    | nil => cases hc.1.symm.trans hc'
    | cons b l' => exact Option.some.inj (hc.1.symm.trans hc'.1) ▸ mem_cons_self
  | cons x l1 ih =>
    cases l' with
    | nil => cases hc.1.symm.trans hc'
    | cons b l' =>
      obtain ⟨rfl, hc⟩ := hc
      obtain ⟨hxb, hc'⟩ := hc'
      cases hxb
      rw [hn x mem_cons_self] at hc'
      exact mem_cons_of_mem _ (ih hc hc' fun y hy => hn y (mem_cons_of_mem _ hy))

theorem nodup : l.Nodup := by
  induction l generalizing h with
  | nil => exact nodup_nil
  | cons a l ih =>
    refine nodup_cons.2 ⟨fun ha => ?_, ih hc.2⟩
    -- a second `a` would start the same rest again
    obtain ⟨l1, l2, hl⟩ := append_of_mem ha
    have hc2 := hc.2
    rw [hl] at hc2
    obtain ⟨_, -, -, hrest⟩ := seg_append.1 hc2
    have hlen := congrArg length (hl.symm.trans (unique hc.2 hrest))
    simp only [length_append, length_cons] at hlen
    omega

theorem head?_eq : h = l.head? := by
  cases l with
  | nil => exact hc
  | cons a l => exact hc.1

omit hc in
theorem next_eq (hc : Chain next h (l1 ++ a :: l2)) : next a = l2.head? := by
  obtain ⟨_, -, -, hrest⟩ := seg_append.1 hc
  exact head?_eq hrest

theorem push (ha : next' a = h) (hn : ∀ x ∈ l, next' x = next x) :
    Chain next' (some a) (a :: l) := by
  refine ⟨rfl, ?_⟩
  rw [ha]
  exact hc.congr hn

end

theorem pop (hc : Chain next h (a :: l)) (hn : ∀ x ∈ l, next' x = next x) : Chain next' (next a) l := congr hc.2 hn

theorem concat (hc : Chain next h (l ++ [p])) (hn : ∀ x ∈ l, next' x = next x) (hp : next' p = some a)
    (ha : next' a = none) : Chain next' h (l ++ [p] ++ [a]) :=
  seg_append.2 ⟨some a, hp ▸ Seg.relink hc hn, rfl, ha⟩

theorem unlink (hc : Chain next h (l1 ++ [p] ++ a :: l2)) (hn : ∀ x ∈ l1 ++ l2, next' x = next x)
    (hp : next' p = next a) : Chain next' h (l1 ++ [p] ++ l2) := by
  obtain ⟨m, hl, -, hrest⟩ := seg_append.1 hc
  refine seg_append.2 ⟨next a, ?_, hrest.congr fun x hx => hn x (mem_append_right _ hx)⟩
  rw [← hp]
  exact hl.relink fun x hx => hn x (mem_append_left _ hx)

end Chain

/-! ### Several lists through the same links -/

section Lists

variable {κ : Type} [DecidableEq κ] [DecidableEq α] {head : κ → Option α} {q : κ → List α} {c d : κ}

structure Lists (next : α → Option α) (head : κ → Option α) (q : κ → List α) : Prop where
  chain : ∀ c, Chain next (head c) (q c)
  disjoint : ∀ c d a, a ∈ q c → a ∈ q d → c = d

def unlinkNext (next : α → Option α) (a : α) : Option α → α → Option α
  | some p => update (update next p (next a)) a none
  | none => update next a none

def unlinkHead (next : α → Option α) (head : κ → Option α) (c : κ) (a : α) : Option α → κ → Option α
  | some _ => head
  | none => update head c (next a)

namespace Lists

variable (hs : Lists next head q)
include hs

theorem push (ha : ∀ d, a ∉ q d) : Lists (update next a (head c)) (update head c (some a))
      (update q c (a :: q c)) where
  chain d := by
    have hn : ∀ x ∈ q d, update next a (head c) x = next x := fun x hx =>
      update_of_ne (ne_of_mem_of_not_mem hx (ha d)) ..
    by_cases hd : d = c
    · subst hd
      simpa using (hs.chain d).push (update_self ..) hn
    · simpa [hd] using (hs.chain d).congr hn
  disjoint d e x hx hx' := by
    by_cases hd : d = c <;> by_cases he : e = c
    · rw [hd, he]
    · subst hd
      rw [update_self, mem_cons] at hx
      rw [update_of_ne he] at hx'
      exact hs.disjoint _ _ x (hx.resolve_left fun h => ha e (h ▸ hx')) hx'
    · subst he
      rw [update_self, mem_cons] at hx'
      rw [update_of_ne hd] at hx
      exact hs.disjoint _ _ x hx (hx'.resolve_left fun h => ha d (h ▸ hx))
    · rw [update_of_ne hd] at hx
      rw [update_of_ne he] at hx'
      exact hs.disjoint _ _ x hx hx'

omit [DecidableEq κ] [DecidableEq α] in
theorem congr (hn : ∀ c, ∀ x ∈ q c, next' x = next x) : Lists next' head q :=
  ⟨fun c => (hs.chain c).congr (hn c), hs.disjoint⟩

omit [DecidableEq α] in
theorem clear : Lists next (update head c none) (update q c []) where
  chain d := by
    by_cases hd : d = c
    · subst hd; simp [Chain, Seg]
    · simpa [hd] using hs.chain d
  disjoint d e x hx hx' := by
    by_cases hd : d = c
    · subst hd; simp at hx
    by_cases he : e = c
    · subst he; simp at hx'
    · rw [update_of_ne hd] at hx
      rw [update_of_ne he] at hx'
      exact hs.disjoint d e x hx hx'

omit [DecidableEq α] in
theorem pop (hq : q c = a :: l) (hn : ∀ x, x ≠ a → next' x = next x) :
    Lists next' (update head c (next a)) (update q c l) where
  chain d := by
    have hc := hs.chain c
    rw [hq] at hc
    have ha : a ∉ l := (nodup_cons.1 hc.nodup).1
    by_cases hd : d = c
    · subst hd
      simpa using hc.pop fun x hx => hn x (ne_of_mem_of_not_mem hx ha)
    · simp only [update_of_ne hd]
      refine (hs.chain d).congr fun x hx => hn x ?_
      rintro rfl
      exact hd (hs.disjoint d c x hx (by simp [hq]))
  disjoint d e x hx hx' := by
    have hsub : ∀ d, x ∈ update q c l d → x ∈ q d := by
      intro d hx
      by_cases hd : d = c
      · subst hd
        rw [update_self] at hx
        rw [hq]
        exact mem_cons_of_mem _ hx
      · rwa [update_of_ne hd] at hx
    exact hs.disjoint d e x (hsub d hx) (hsub e hx')

omit [DecidableEq α] in
theorem mem_unlink (hq : q c = l1 ++ a :: l2) {x : α} :
    x ∈ update q c (l1 ++ l2) d ↔ x ∈ q d ∧ x ≠ a := by
  have hnd := (hs.chain c).nodup
  rw [hq] at hnd
  have ha : a ∉ l1 ++ l2 := (nodup_middle.1 hnd).notMem
  by_cases hd : d = c
  · subst hd
    rw [update_self, hq]
    constructor
    · intro hx
      refine ⟨?_, ne_of_mem_of_not_mem hx ha⟩
      rcases mem_append.1 hx with hx | hx <;> simp [hx]
    · rintro ⟨hx, hne⟩
      simpa [hne] using hx
  · rw [update_of_ne hd, iff_self_and]
    rintro hx rfl
    exact hd (hs.disjoint _ _ x hx (by simp [hq]))

theorem unlink (hq : q c = l1 ++ a :: l2) :
    Lists (unlinkNext next a l1.getLast?) (unlinkHead next head c a l1.getLast?) (update q c (l1 ++ l2)) where
  disjoint d e x hx hx' := hs.disjoint d e x ((hs.mem_unlink hq).1 hx).1 ((hs.mem_unlink hq).1 hx').1
  chain d := by
    have hc := hs.chain c
    have hmem := fun x (hx : x ∈ update q c (l1 ++ l2) d) => (hs.mem_unlink hq).1 hx
    rw [hq] at hc
    rcases l1.eq_nil_or_concat with rfl | ⟨l, p, rfl⟩
    · have hn : ∀ x ∈ update q c ([] ++ l2) d, unlinkNext next a none x = next x := fun x hx =>
        update_of_ne (hmem x hx).2 ..
      by_cases hd : d = c
      · subst hd
        rw [update_self] at hn
        simpa [unlinkHead] using hc.pop hn
      · rw [update_of_ne hd] at hn
        simpa [unlinkHead, hd] using (hs.chain d).congr hn
    · have hlast : (l.concat p).getLast? = some p := by simp
      rw [hlast]
      have hn : ∀ x ∈ update q c (l.concat p ++ l2) d, x ≠ p →
          unlinkNext next a (some p) x = next x := fun x hx hxp => by
        simp [unlinkNext, (hmem x hx).2, hxp]
      by_cases hd : d = c
      · subst hd
        rw [update_self] at ⊢
        rw [concat_eq_append] at hc ⊢
        have hp : p ∉ l ++ a :: l2 := (nodup_middle.1 (append_assoc l [p] _ ▸ hc.nodup)).notMem
        simp only [mem_append, mem_cons, not_or] at hp
        refine hc.unlink (fun x hx => hn x ?_ ?_) ?_
        · rcases mem_append.1 hx with hx | hx <;> simp [hx]
        · rintro rfl
          exact (mem_append.1 hx).elim hp.1 hp.2.2
        · simp [unlinkNext, hp.2.1]
      · rw [update_of_ne hd] at hn ⊢
        refine (hs.chain d).congr fun x hx => hn x hx ?_
        rintro rfl
        exact hd (hs.disjoint _ _ x hx (by simp [hq]))

end Lists

/-! ### Lists with a tail -/

variable {tail : κ → Option α}

structure Fifos (next : α → Option α) (head tail : κ → Option α) (q : κ → List α) : Prop
    extends Lists next head q where
  tail_eq : ∀ c, tail c = (q c).getLast?

def appendNext (next : α → Option α) (a : α) : Option α → α → Option α
  | some p => update (update next a none) p (some a)
  | none => update next a none

def appendHead (head : κ → Option α) (c : κ) (a : α) : Option α → κ → Option α
  | some _ => head
  | none => update head c (some a)

namespace Fifos

variable (hs : Fifos next head tail q)
include hs

omit [DecidableEq κ] [DecidableEq α] in
theorem head_eq_none (c : κ) : head c = none ↔ tail c = none := by
  rw [(hs.chain c).head?_eq, hs.tail_eq, head?_eq_none_iff, getLast?_eq_none_iff]

theorem append (ha : ∀ d, a ∉ q d) :
    Fifos (appendNext next a (tail c)) (appendHead head c a (tail c)) (update tail c (some a))
      (update q c (q c ++ [a])) where
  chain d := by
    have hc := hs.chain c
    rw [hs.tail_eq]
    rcases (q c).eq_nil_or_concat with hq | ⟨l, p, hq⟩
    · rw [hq]
      by_cases hd : d = c
      · subst hd
        simp [appendNext, appendHead, Chain, Seg]
      · simpa [appendHead, hd] using (hs.chain d).congr fun x hx =>
          update_of_ne (ne_of_mem_of_not_mem hx (ha d)) ..
    rw [concat_eq_append] at hq
    have hpc : p ∈ q c := by simp [hq]
    have hn : ∀ x, x ∈ q d → x ≠ p → appendNext next a (some p) x = next x := fun x hx hxp => by
      simp [appendNext, hxp, ne_of_mem_of_not_mem hx (ha d)]
    rw [hq] at hc ⊢
    simp only [getLast?_concat]
    by_cases hd : d = c
    · subst hd
      rw [update_self]
      refine hc.concat (fun x hx => hn x (by simp [hq, hx]) ?_) ?_ ?_
      · rintro rfl
        exact disjoint_of_nodup_append hc.nodup hx mem_cons_self
      · simp [appendNext]
      · simp [appendNext, (ne_of_mem_of_not_mem hpc (ha d)).symm]
    · rw [update_of_ne hd]
      refine (hs.chain d).congr fun x hx => hn x hx ?_
      rintro rfl
      exact hd (hs.disjoint _ _ x hx hpc)
  disjoint := by
    have hmem : ∀ d x, x ∈ update q c (q c ++ [a]) d → x ∈ q d ∨ x = a ∧ d = c := by
      intro d x hx
      by_cases hd : d = c
      · subst hd
        simpa using hx
      · exact .inl (by simpa [hd] using hx)
    intro d e x hx hx'
    rcases hmem d x hx with hx | ⟨hxa, hd⟩ <;> rcases hmem e x hx' with hx' | ⟨hxa', he⟩
    · exact hs.disjoint d e x hx hx'
    · exact absurd (hxa' ▸ hx) (ha d)
    · exact absurd (hxa ▸ hx') (ha e)
    · rw [hd, he]
  tail_eq d := by
    by_cases hd : d = c
    · subst hd
      simp
    · simpa [hd] using hs.tail_eq d

theorem unlink (hq : q c = l1 ++ a :: l2) :
    Fifos (unlinkNext next a l1.getLast?) (unlinkHead next head c a l1.getLast?)
      (if tail c = some a then update tail c l1.getLast? else tail)
      (update q c (l1 ++ l2)) where
  __ := hs.toLists.unlink hq
  tail_eq d := by
    have hnd := (hs.chain c).nodup
    rw [hq] at hnd
    have ha : a ∉ l1 ++ l2 := (nodup_middle.1 hnd).notMem
    by_cases hd : d = c
    · subst hd
      rw [hs.tail_eq, hq, update_self]
      rcases l2.eq_nil_or_concat with rfl | ⟨l, b, rfl⟩
      · simp
      have hba : b ≠ a := fun e => ha (by simp [e])
      rw [concat_eq_append] at hq ⊢
      rw [← cons_append, ← append_assoc, ← append_assoc, getLast?_concat,
        getLast?_concat, if_neg (by simpa using hba), hs.tail_eq, hq, ← cons_append,
        ← append_assoc, getLast?_concat]
    · rw [update_of_ne hd]
      split
      · rw [update_of_ne hd, hs.tail_eq]
      · exact hs.tail_eq d

omit [DecidableEq α] in
theorem clear : Fifos next (update head c none) (update tail c none) (update q c []) where
  chain d := by
    by_cases hd : d = c
    · subst hd
      simp [Chain, Seg]
    · simpa [hd] using hs.chain d
  disjoint d e x hx hx' := by
    have hmem : ∀ d, x ∈ update q c [] d → x ∈ q d := by
      intro d hx
      by_cases hd : d = c
      · subst hd
        simp at hx
      · simpa [hd] using hx
    exact hs.disjoint d e x (hmem d hx) (hmem e hx')
  tail_eq d := by
    by_cases hd : d = c
    · subst hd
      simp
    · simpa [hd] using hs.tail_eq d

omit [DecidableEq κ] [DecidableEq α] in
theorem congr (hn : ∀ c, ∀ x ∈ q c, next' x = next x) : Fifos next' head tail q :=
  { hs with chain := fun c => (hs.chain c).congr (hn c) }

end Fifos

end Lists

/-! ### The loop along a list -/

def walk (next : α → Option α) : Nat → Option α → Option (List α)
  | _, none => some []
  | 0, some _ => none
  | n + 1, some a => (walk next n (next a)).map (a :: ·)

variable {n : Nat}

theorem walk_eq_some : walk next n h = some l ↔ Chain next h l ∧ l.length ≤ n := by
  induction n generalizing h l with
  | zero =>
    cases h with
    | none => cases l <;> simp [walk, Chain, Seg]
    | some a => cases l <;> simp [walk, Chain, Seg]
  | succ n ih =>
    cases h with
    | none => cases l <;> simp [walk, Chain, Seg]
    | some a =>
      simp only [walk, Option.map_eq_some_iff, ih]
      constructor
      · rintro ⟨l, ⟨hc, hlen⟩, rfl⟩
        exact ⟨⟨rfl, hc⟩, by simpa using hlen⟩
      · rintro ⟨hc, hlen⟩
        cases l with
        | nil => cases hc
        | cons b l =>
          obtain ⟨hab, hc⟩ := hc
          cases hab
          exact ⟨l, ⟨hc, by simpa using hlen⟩, rfl⟩

theorem Chain.walk (hc : Chain next h l) (hn : l.length ≤ n) : walk next n h = some l := walk_eq_some.2 ⟨hc, hn⟩

def seek [DecidableEq α] (next : α → Option α) (a : α) : Nat → Option α → Option α → Option (Option (Option α))
  | _, _, none => some none
  | 0, _, some _ => none
  | n + 1, prev, some x => if x = a then some (some prev) else seek next a n (some x) (next x)

theorem Chain.seek_eq_none [DecidableEq α] (hc : Chain next h l) (ha : a ∉ l) (hn : l.length ≤ n)
    (prev : Option α) : seek next a n prev h = some none := by
  induction l generalizing h n prev with
  | nil =>
    cases hc
    rw [seek]
  | cons x l ih =>
    obtain ⟨rfl, hc⟩ := hc
    obtain ⟨n, rfl⟩ : ∃ k, n = k + 1 := ⟨n - 1, by simp only [length_cons] at hn; omega⟩
    simp only [mem_cons, not_or] at ha
    rw [seek, if_neg (Ne.symm ha.1)]
    exact ih hc ha.2 (by simpa using hn) _

theorem Chain.seek_eq_some [DecidableEq α] (hc : Chain next h (l1 ++ a :: l2))
    (hn : (l1 ++ a :: l2).length ≤ n) (prev : Option α) :
    seek next a n prev h = some (some (l1.getLast?.or prev)) := by
  induction l1 generalizing h n prev with
  | nil =>
    obtain ⟨rfl, -⟩ := hc
    obtain ⟨n, rfl⟩ : ∃ k, n = k + 1 := ⟨n - 1, by simp only [nil_append, length_cons] at hn; omega⟩
    rw [seek, if_pos rfl]
    rfl
  | cons x l ih =>
    have hxa : x ≠ a := by
      rintro rfl
      exact (nodup_cons.1 hc.nodup).1 (by simp)
    obtain ⟨rfl, hc⟩ := hc
    obtain ⟨n, rfl⟩ : ∃ k, n = k + 1 := ⟨n - 1, by simp only [cons_append, length_cons] at hn; omega⟩
    rw [seek, if_neg hxa, ih hc (by simpa using hn) (some x), getLast?_cons]
    cases l.getLast? <;> rfl

/-! ### The least key -/

def minKey (key : α → Nat) : Nat → List α → Nat
  | m, [] => m
  | m, a :: l => minKey key (if key a < m then key a else m) l

theorem minKey_le (key : α → Nat) (m : Nat) (l : List α) : minKey key m l ≤ m ∧ ∀ a ∈ l, minKey key m l ≤ key a := by
  induction l generalizing m with
  | nil => exact ⟨Nat.le_refl _, by simp⟩
  | cons a l ih =>
    obtain ⟨hm, hl⟩ := ih (if key a < m then key a else m)
    have hle : (if key a < m then key a else m) ≤ m ∧ (if key a < m then key a else m) ≤ key a := by
      split <;> omega
    rw [forall_mem_cons]
    exact ⟨Nat.le_trans hm hle.1, Nat.le_trans hm hle.2, hl⟩

theorem minKey_mem (key : α → Nat) (m : Nat) (l : List α) : minKey key m l = m ∨ ∃ a ∈ l, minKey key m l = key a := by
  induction l generalizing m with
  | nil => exact .inl rfl
  | cons a l ih =>
    rw [minKey]
    split
    · rcases ih (key a) with h | ⟨b, hb, h⟩
      · exact .inr ⟨a, mem_cons_self, h⟩
      · exact .inr ⟨b, mem_cons_of_mem _ hb, h⟩
    · refine (ih m).imp_right ?_
      rintro ⟨b, hb, h⟩
      exact ⟨b, mem_cons_of_mem _ hb, h⟩

/-! ### The first node of the least key -/

/-- The loop of `least`: `prev` is the node before the rest, `best` the least key so far and its node. -/
def leastFrom (q : α → Bool) (key : α → Nat) : Option α → List α → Nat × Option (Option α × α) →
    Option (Option α × α)
  | _, [], best => best.2
  | prev, a :: l, best =>
    leastFrom q key (some a) l (if q a && key a < best.1 then (key a, some (prev, a)) else best)

/-- Among the nodes that satisfy `q` and have a key below `top`, the first of the least key. -/
def least (q : α → Bool) (key : α → Nat) (top : Nat) (l : List α) : Option (Option α × α) :=
  leastFrom q key none l (top, none)

variable {q : α → Bool} {key : α → Nat} {top : Nat} {best : Nat × Option (Option α × α)} {prev : Option α}

/-- What the loop has found among the nodes `l`. -/
structure Found (q : α → Bool) (key : α → Nat) (top : Nat) (l : List α) (best : Nat × Option (Option α × α)) :
    Prop where
  le : ∀ x ∈ l, q x → best.1 ≤ key x
  start : best.2 = none → best.1 = top
  node : ∀ prev a, best.2 = some (prev, a) → q a ∧ key a = best.1 ∧ best.1 < top ∧
    ∃ l1 l2, l = l1 ++ a :: l2 ∧ prev = l1.getLast?

theorem Found.snoc (hf : Found q key top l best) (hb : best.1 ≤ top) : Found q key top (l ++ [a])
        (if q a && key a < best.1 then (key a, some (l.getLast?, a)) else best) ∧
      (if q a && key a < best.1 then (key a, some (l.getLast?, a)) else best).1 ≤ top := by
  split
  · rename_i hlt
    simp only [Bool.and_eq_true, decide_eq_true_eq] at hlt
    refine ⟨⟨?_, by simp, ?_⟩, by dsimp only; omega⟩
    · intro x hx hq
      rcases mem_append.1 hx with hx | hx
      · have := hf.le x hx hq
        omega
      · exact Nat.le_of_eq (congrArg key (mem_singleton.1 hx)).symm
    · rintro prev b hbest
      cases hbest
      exact ⟨hlt.1, rfl, by dsimp only; omega, l, [], rfl, rfl⟩
  · rename_i hge
    simp only [Bool.and_eq_true, decide_eq_true_eq, not_and, Nat.not_lt] at hge
    refine ⟨⟨?_, hf.start, ?_⟩, hb⟩
    · intro x hx hq
      rcases mem_append.1 hx with hx | hx
      · exact hf.le x hx hq
      · rw [mem_singleton.1 hx] at hq ⊢
        exact hge hq
    · intro prev b hbest
      obtain ⟨hq, hk, hlt, l1, l2, rfl, hprev⟩ := hf.node prev b hbest
      exact ⟨hq, hk, hlt, l1, l2 ++ [a], by simp, hprev⟩

theorem Found.leastFrom (hf : Found q key top l best) (hb : best.1 ≤ top) (l' : List α) :
    ∃ best', leastFrom q key l.getLast? l' best = best'.2 ∧ Found q key top (l ++ l') best' := by
  induction l' generalizing l best with
  | nil => exact ⟨best, rfl, by simpa using hf⟩
  | cons a l' ih =>
    obtain ⟨hf', hb'⟩ := hf.snoc hb
    obtain ⟨best', heq, hfound⟩ := ih hf' hb'
    refine ⟨best', ?_, by simpa using hfound⟩
    simpa [Links.leastFrom] using heq

theorem least_found (q : α → Bool) (key : α → Nat) (top : Nat) (l : List α) :
    ∃ best, least q key top l = best.2 ∧ Found q key top l best := by
  have h0 : Found q key top [] (top, none) := ⟨by simp, fun _ => rfl, by simp⟩
  simpa [least] using h0.leastFrom (Nat.le_refl _) l

theorem least_eq_none (hl : least q key top l = none) : ∀ x ∈ l, q x → top ≤ key x := by
  obtain ⟨best, heq, hf⟩ := least_found q key top l
  intro x hx hq
  rw [← hf.start (heq ▸ hl)]
  exact hf.le x hx hq

theorem least_eq_some (hl : least q key top l = some (prev, a)) :
    q a ∧ key a < top ∧ (∀ x ∈ l, q x → key a ≤ key x) ∧ ∃ l1 l2, l = l1 ++ a :: l2 ∧ prev = l1.getLast? := by
  obtain ⟨best, heq, hf⟩ := least_found q key top l
  obtain ⟨hq, hk, hlt, hsplit⟩ := hf.node prev a (heq ▸ hl)
  exact ⟨hq, hk ▸ hlt, fun x hx hqx => hk ▸ hf.le x hx hqx, hsplit⟩

end Links
