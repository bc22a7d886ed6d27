import Mathlib.Tactic
import Mathlib.Data.List.Perm.Basic

/-! Lists of tiles laid end to end. A tile has a length; `Tiles P a ts e` says that the tiles
`ts` cover `[a, e)` exactly, each satisfying `P` at the address where it starts. `At` names one
tile by its address, `starts` lists the addresses of the selected tiles in increasing order. The
list is the whole layout, so an edit in the middle is an edit between a prefix and a suffix. -/
namespace Tiling
set_option autoImplicit false
set_option maxHeartbeats 250000

variable {τ : Type} (len : τ → ℕ)

def total (ts : List τ) : ℕ := (ts.map len).sum

def Tiles (P : ℕ → τ → Prop) : ℕ → List τ → ℕ → Prop
  | a, [], e => e = a
  | a, t :: ts, e => P a t ∧ Tiles P (a + len t) ts e

/-- The tile `t` starts at address `b` of the layout that begins at `a`. -/
def At : ℕ → List τ → ℕ → τ → Prop
  | _, [], _, _ => False
  | a, x :: xs, b, t => (b = a ∧ t = x) ∨ At (a + len x) xs b t

def starts (sel : τ → Bool) : ℕ → List τ → List ℕ
  | _, [] => []
  | a, t :: ts => if sel t then a :: starts sel (a + len t) ts else starts sel (a + len t) ts

variable {len} {P Q : ℕ → τ → Prop} {sel : τ → Bool} {a b c e : ℕ} {t u : τ}
  {ts xs ys pre post : List τ}

/-! ## Totals -/

@[simp] theorem total_nil : total len [] = 0 := rfl

@[simp] theorem total_cons : total len (t :: ts) = len t + total len ts := by simp [total]

@[simp] theorem total_append : total len (xs ++ ys) = total len xs + total len ys := by
  simp [total]

/-! ## Tilings -/

theorem tiles_append :
    Tiles len P a (xs ++ ys) e ↔
      Tiles len P a xs (a + total len xs) ∧ Tiles len P (a + total len xs) ys e := by
  induction xs generalizing a with
  | nil => simp [Tiles]
  | cons x xs ih =>
    simp only [List.cons_append, Tiles, total_cons, ih, and_assoc, Nat.add_assoc]

theorem tiles_middle :
    Tiles len P a (pre ++ t :: post) e ↔
      Tiles len P a pre (a + total len pre) ∧ P (a + total len pre) t ∧
        Tiles len P (a + total len pre + len t) post e := by
  rw [tiles_append, Tiles]

theorem Tiles.end_eq (h : Tiles len P a ts e) : e = a + total len ts := by
  induction ts generalizing a with
  | nil => simpa [Tiles] using h
  | cons t ts ih =>
    have := ih h.2
    simp only [total_cons]
    omega

theorem Tiles.imp (h : Tiles len P a ts e)
    (hPQ : ∀ b t, t ∈ ts → a ≤ b → b + len t ≤ e → P b t → Q b t) : Tiles len Q a ts e := by
  induction ts generalizing a with
  | nil => exact h
  | cons t ts ih =>
    obtain ⟨hP, hrest⟩ := h
    have hend := hrest.end_eq
    refine ⟨hPQ a t (List.mem_cons_self ..) le_rfl (by omega) hP, ih hrest ?_⟩
    intro b u hu hb he
    exact hPQ b u (List.mem_cons_of_mem t hu) (by omega) he

/-! ## Tiles by address -/

theorem at_iff_split :
    At len a ts b t ↔ ∃ pre post, ts = pre ++ t :: post ∧ b = a + total len pre := by
  induction ts generalizing a with
  | nil => simp [At]
  | cons x xs ih =>
    constructor
    · rintro (⟨rfl, rfl⟩ | h)
      · exact ⟨[], xs, rfl, by simp⟩
      · obtain ⟨pre, post, rfl, rfl⟩ := ih.mp h
        exact ⟨x :: pre, post, rfl, by simp [Nat.add_assoc]⟩
    · rintro ⟨pre, post, hx, hb⟩
      cases pre with
      | nil =>
        simp only [List.nil_append, List.cons.injEq] at hx
        exact Or.inl ⟨by simpa using hb, hx.1.symm⟩
      | cons y pre =>
        simp only [List.cons_append, List.cons.injEq] at hx
        obtain ⟨rfl, rfl⟩ := hx
        exact Or.inr (ih.mpr ⟨pre, post, rfl, by simpa [Nat.add_assoc] using hb⟩)

theorem at_middle (len : τ → ℕ) (a : ℕ) (pre : List τ) (t : τ) (post : List τ) :
    At len a (pre ++ t :: post) (a + total len pre) t := at_iff_split.mpr ⟨pre, post, rfl, rfl⟩

theorem at_append : At len a (xs ++ ys) b t ↔ At len a xs b t ∨ At len (a + total len xs) ys b t := by
  induction xs generalizing a with
  | nil => simp [At]
  | cons x xs ih =>
    simp only [List.cons_append, At, total_cons, ih, Nat.add_assoc]
    exact (or_assoc).symm

theorem At.mem (h : At len a ts b t) : t ∈ ts := by
  obtain ⟨pre, post, rfl, _⟩ := at_iff_split.mp h
  simp

theorem At.bounds (h : At len a ts b t) : a ≤ b ∧ b + len t ≤ a + total len ts := by
  obtain ⟨pre, post, rfl, rfl⟩ := at_iff_split.mp h
  simp only [total_append, total_cons]
  omega

theorem Tiles.at (h : Tiles len P a ts e) (ht : At len a ts b t) : P b t := by
  obtain ⟨pre, post, rfl, rfl⟩ := at_iff_split.mp ht
  exact (tiles_middle.mp h).2.1

/-- The tiles keep their places while what holds of them changes. -/
theorem Tiles.imp_at (h : Tiles len P a ts e) (hPQ : ∀ b t, At len a ts b t → P b t → Q b t) : Tiles len Q a ts e := by
  induction ts generalizing a with
  | nil => exact h
  | cons t ts ih =>
    obtain ⟨hP, hrest⟩ := h
    exact ⟨hPQ a t (Or.inl ⟨rfl, rfl⟩) hP, ih hrest fun b u hu hb => hPQ b u (Or.inr hu) hb⟩

/-- Two tilings of one stretch that agree on lengths have their tiles at the same addresses. -/
theorem Tiles.at_other {us : List τ} (h : Tiles len P a ts e) (h' : Tiles len Q a us e)
    (hlen : ∀ b t u, P b t → Q b u → len u = len t) (hpos : ∀ b t, P b t → 0 < len t) (ht : At len a ts b t) :
    ∃ u, At len a us b u ∧ len u = len t := by
  induction ts generalizing a us with
  | nil => exact ht.elim
  | cons x xs ih =>
    cases us with
    | nil =>
      have hend := h.end_eq
      have hx := hpos a x h.1
      simp only [Tiles, total_cons] at h' hend
      omega
    | cons y ys =>
      have hxy := hlen a x y h.1 h'.1
      rcases ht with ⟨rfl, rfl⟩ | ht
      · exact ⟨y, Or.inl ⟨rfl, rfl⟩, hxy⟩
      · have hrest := h'.2
        rw [hxy] at hrest
        obtain ⟨u, hu, hsame⟩ := ih h.2 hrest ht
        refine ⟨u, Or.inr ?_, hsame⟩
        rwa [hxy]

/-- Two tiles of one layout are the same tile or do not overlap. -/
theorem At.disjoint (ht : At len a ts b t) (hu : At len a ts c u) :
    b + len t ≤ c ∨ c + len u ≤ b ∨ (b = c ∧ t = u) := by
  induction ts generalizing a with
  | nil => exact ht.elim
  | cons x xs ih =>
    rcases ht with ⟨rfl, rfl⟩ | ht <;> rcases hu with ⟨rfl, rfl⟩ | hu
    · exact Or.inr (Or.inr ⟨rfl, rfl⟩)
    · exact Or.inl hu.bounds.1
    · exact Or.inr (Or.inl ht.bounds.1)
    · exact ih ht hu

theorem At.unique (ht : At len a ts b t) (hu : At len a ts b u) (hpos : 0 < len t)
    (hpos' : 0 < len u) : t = u := by
  rcases ht.disjoint hu with h | h | h
  · omega
  · omega
  · exact h.2

/-- A tile outside the exchanged stretch keeps its place. -/
theorem At.replace {old mid : List τ} (h : At len a (pre ++ old ++ post) b t)
    (hold : ¬ At len (a + total len pre) old b t) (htotal : post = [] ∨ total len mid = total len old) :
    At len a (pre ++ mid ++ post) b t ∧
      (b + len t ≤ a + total len pre ∨ (post ≠ [] ∧ a + total len pre + total len old ≤ b)) := by
  rcases at_append.mp h with hleft | hright
  · have hpre := (at_append.mp hleft).resolve_right hold
    exact ⟨at_append.mpr (Or.inl (at_append.mpr (Or.inl hpre))), Or.inl hpre.bounds.2⟩
  · have hne : post ≠ [] := by
      rintro rfl
      exact hright
    have hsize := htotal.resolve_left hne
    have hlow := hright.bounds.1
    rw [total_append] at hright hlow
    refine ⟨at_append.mpr (Or.inr ?_), Or.inr ⟨hne, by omega⟩⟩
    rw [total_append, hsize]
    exact hright

/-! ## Starts -/

theorem starts_append :
    starts len sel a (xs ++ ys) = starts len sel a xs ++ starts len sel (a + total len xs) ys := by
  induction xs generalizing a with
  | nil => simp [starts]
  | cons x xs ih =>
    simp only [List.cons_append, starts, total_cons, ih, Nat.add_assoc]
    cases sel x <;> simp

theorem starts_cons_of (h : sel t = true) :
    starts len sel a (t :: ts) = a :: starts len sel (a + len t) ts := by simp [starts, h]

theorem starts_cons_of_not (h : sel t = false) :
    starts len sel a (t :: ts) = starts len sel (a + len t) ts := by simp [starts, h]

theorem mem_starts : b ∈ starts len sel a ts ↔ ∃ t, At len a ts b t ∧ sel t = true := by
  induction ts generalizing a with
  | nil => simp [starts, At]
  | cons x xs ih =>
    cases hx : sel x with
    | false =>
      rw [starts_cons_of_not hx, ih]
      constructor
      · rintro ⟨t, ht, hs⟩
        exact ⟨t, Or.inr ht, hs⟩
      · rintro ⟨t, ⟨_, rfl⟩ | ht, hs⟩
        · rw [hx] at hs
          cases hs
        · exact ⟨t, ht, hs⟩
    | true =>
      rw [starts_cons_of hx, List.mem_cons, ih]
      constructor
      · rintro (rfl | ⟨t, ht, hs⟩)
        · exact ⟨x, Or.inl ⟨rfl, rfl⟩, hx⟩
        · exact ⟨t, Or.inr ht, hs⟩
      · rintro ⟨t, ⟨rfl, _⟩ | ht, hs⟩
        · exact Or.inl rfl
        · exact Or.inr ⟨t, ht, hs⟩

theorem starts_pairwise (hpos : ∀ t ∈ ts, 0 < len t) :
    (starts len sel a ts).Pairwise (· < ·) := by
  induction ts generalizing a with
  | nil => exact List.Pairwise.nil
  | cons x xs ih =>
    have hrest := ih (a := a + len x) (fun t ht => hpos t (List.mem_cons_of_mem x ht))
    have hx := hpos x (List.mem_cons_self ..)
    cases hs : sel x with
    | false => rwa [starts_cons_of_not hs]
    | true =>
      rw [starts_cons_of hs, List.pairwise_cons]
      refine ⟨?_, hrest⟩
      intro b hb
      obtain ⟨t, ht, _⟩ := mem_starts.mp hb
      have := ht.bounds
      omega

theorem starts_nodup (hpos : ∀ t ∈ ts, 0 < len t) : (starts len sel a ts).Nodup :=
  (starts_pairwise hpos).imp (fun h => Nat.ne_of_lt h)

/-! ## What the selected tiles cover -/

/-- The address `x` lies in a selected tile. -/
def Covered (len : τ → ℕ) (sel : τ → Bool) (a : ℕ) (ts : List τ) (x : ℕ) : Prop :=
  ∃ b t, At len a ts b t ∧ sel t = true ∧ b ≤ x ∧ x < b + len t

variable {x : ℕ}

theorem covered_append :
    Covered len sel a (xs ++ ys) x ↔ Covered len sel a xs x ∨ Covered len sel (a + total len xs) ys x := by
  constructor
  · rintro ⟨b, t, hat, hin⟩
    rcases at_append.mp hat with hleft | hright
    · exact Or.inl ⟨b, t, hleft, hin⟩
    · exact Or.inr ⟨b, t, hright, hin⟩
  · rintro (⟨b, t, hat, hin⟩ | ⟨b, t, hat, hin⟩)
    · exact ⟨b, t, at_append.mpr (Or.inl hat), hin⟩
    · exact ⟨b, t, at_append.mpr (Or.inr hat), hin⟩

theorem covered_singleton : Covered len sel a [t] x ↔ sel t = true ∧ a ≤ x ∧ x < a + len t := by
  constructor
  · rintro ⟨b, u, ⟨rfl, rfl⟩ | hnil, hin⟩
    · exact hin
    · exact hnil.elim
  · rintro hin
    exact ⟨a, t, Or.inl ⟨rfl, rfl⟩, hin⟩

theorem not_covered_nil : ¬ Covered len sel a [] x := by
  rintro ⟨b, t, hat, -⟩
  exact hat

/-- Selected tiles end to end cover all of their stretch. -/
theorem covered_all (hsel : ∀ t ∈ ts, sel t = true) : Covered len sel a ts x ↔ a ≤ x ∧ x < a + total len ts := by
  induction ts generalizing a with
  | nil =>
    rw [total_nil]
    exact iff_of_false not_covered_nil (by omega)
  | cons t ts ih =>
    have hrest := ih (a := a + len t) fun u hu => hsel u (List.mem_cons_of_mem t hu)
    rw [← List.singleton_append, covered_append, covered_singleton, total_cons, total_nil, Nat.add_zero, hrest,
      List.singleton_append, total_cons]
    have hfirst := hsel t List.mem_cons_self
    constructor
    · rintro (⟨-, hlow, hhigh⟩ | hin) <;> omega
    · intro hin
      rcases Nat.lt_or_ge x (a + len t) with hlt | hge
      · exact Or.inl ⟨hfirst, hin.1, hlt⟩
      · exact Or.inr (by omega)

end Tiling
