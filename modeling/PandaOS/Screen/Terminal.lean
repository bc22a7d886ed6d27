import PandaOS.Screen.Monitor

/-! The monitor is a scrolling terminal. `Terminal` is the text itself, a list of closed rows and
the row being written; the framebuffer shows its last 25 rows. Every cell at or behind the cursor is
blank because the row's text ends there, so a tab needs no stores. -/
namespace PandaOS
set_option autoImplicit false
set_option maxHeartbeats 250000

structure Terminal where
  closed : List (List (BitVec 8))
  current : List (BitVec 8)

def Terminal.rows (t : Terminal) : List (List (BitVec 8)) := t.closed ++ [t.current]

def Terminal.empty : Terminal := ⟨[], []⟩

def Terminal.close (t : Terminal) : Terminal := ⟨t.rows, []⟩

/-- A row that reaches 80 cells is closed at once. -/
def Terminal.settle (t : Terminal) : Terminal := if t.current.length = 80 then t.close else t

def Terminal.append (t : Terminal) (text : List (BitVec 8)) : Terminal :=
  ⟨t.closed, t.current ++ text⟩

def Terminal.put (c : BitVec 8) (t : Terminal) : Terminal :=
  if 0x20 ≤ c.toNat ∧ c.toNat ≤ 0x7F then (t.append [c]).settle
  else if c = 0x09 then (t.append (List.replicate (8 - t.current.length % 8) 0x20)).settle
  else if c = 0x08 then ⟨t.closed, t.current.dropLast⟩
  else if c = 0x0A ∨ c = 0x0D then t.close
  else t

/-- The character in column `x` of row `r` of a screen that shows the last 25 of the rows. -/
def screenChar (rows : List (List (BitVec 8))) (r x : ℕ) : BitVec 8 :=
  ((rows.drop (rows.length - 25)).getD r []).getD x 0x20

/-- The characters in the framebuffer are the last 25 rows, with blanks behind each and below. -/
def Shows (m : Monitor) (rows : List (List (BitVec 8))) : Prop :=
  ∀ r < 25, ∀ x < 80, m.charAt (r*80 + x) = screenChar rows r x

/-- The row of the screen where the last of `k` rows is. -/
def lastRow (k : ℕ) : ℕ := min (k - 1) 24

structure Displays (m : Monitor) (t : Terminal) : Prop where
  screen : Shows m t.rows
  cursorX : m.cursorX.toNat = t.current.length
  cursorY : m.cursorY.toNat = lastRow t.rows.length
  short : t.current.length < 80

variable {m m' : Monitor} {t : Terminal} {rows closed : List (List (BitVec 8))} {row row' : List (BitVec 8)}
  {c : BitVec 8} {r x : ℕ}

/-! ## The rows on the screen -/

theorem screenChar_eq (rows : List (List (BitVec 8))) (r x : ℕ) :
    screenChar rows r x = (rows[rows.length - 25 + r]?.getD []).getD x 0x20 := by
  rw [screenChar, List.getD_eq_getElem?_getD (l := rows.drop _), List.getElem?_drop]

theorem screenChar_last (hr : r = lastRow (closed.length + 1)) :
    screenChar (closed ++ [row]) r x = row.getD x 0x20 := by
  unfold lastRow at hr
  rw [screenChar_eq, List.length_append, List.length_singleton]
  have hlast : closed.length + 1 - 25 + r = closed.length := by omega
  rw [hlast, List.getElem?_concat_length]
  rfl

theorem screenChar_closed (hr : r ≠ lastRow (closed.length + 1)) :
    screenChar (closed ++ [row]) r x = screenChar (closed ++ [row']) r x := by
  unfold lastRow at hr
  simp only [screenChar_eq, List.length_append, List.length_singleton]
  rcases lt_or_ge (closed.length + 1 - 25 + r) closed.length with hlt | hge
  · rw [List.getElem?_append_left hlt, List.getElem?_append_left hlt]
  · have hnone : ∀ u : List (BitVec 8), (closed ++ [u])[closed.length + 1 - 25 + r]? = none := by
      intro u
      apply List.getElem?_eq_none
      simp only [List.length_append, List.length_singleton]
      omega
    rw [hnone, hnone]

/-- A new row below the screen's 25 pushes the rows up by one. -/
theorem screenChar_push (h : 25 ≤ rows.length) (hr : r < 25) :
    screenChar (rows ++ [[]]) r x = if r < 24 then screenChar rows (r + 1) x else 0x20 := by
  simp only [screenChar_eq, List.length_append, List.length_singleton]
  split_ifs with hlt
  · have hshift : rows.length + 1 - 25 + r = rows.length - 25 + (r + 1) := by omega
    rw [hshift, List.getElem?_append_left (by omega)]
  · have hlast : rows.length + 1 - 25 + r = rows.length := by omega
    rw [hlast, List.getElem?_concat_length]
    rfl

theorem screenChar_room (h : rows.length < 25) :
    screenChar (rows ++ [[]]) r x = screenChar rows r x := by
  simp only [screenChar_eq, List.length_append, List.length_singleton]
  have hnew : rows.length + 1 - 25 + r = r := by omega
  have hold : rows.length - 25 + r = r := by omega
  rw [hnew, hold]
  rcases lt_trichotomy r rows.length with hlt | heq | hgt
  · rw [List.getElem?_append_left hlt]
  · rw [heq, List.getElem?_concat_length, List.getElem?_eq_none le_rfl]
    rfl
  · have hbehind : (rows ++ [[]]).length ≤ r := by
      rw [List.length_append, List.length_singleton]
      omega
    rw [List.getElem?_eq_none hbehind, List.getElem?_eq_none hgt.le]

/-! ## Editing the current row -/

/-- The row being written is on the screen where the cursor is. -/
theorem Shows.edit (h : Shows m (closed ++ [row]))
    (hchars : ∀ r < 25, ∀ x < 80, m'.charAt (r*80 + x) =
      if r = lastRow (closed.length + 1) then row'.getD x 0x20 else m.charAt (r*80 + x)) :
    Shows m' (closed ++ [row']) := by
  intro r hr x hx
  rw [hchars r hr x hx]
  split_ifs with hlast
  · exact (screenChar_last hlast).symm
  · rw [h r hr x hx]
    exact screenChar_closed hlast

/-- A store at the cursor's row changes one cell of the row. -/
theorem Shows.poke {v : BitVec 16} {y : ℕ} (h : Shows m (closed ++ [row]))
    (hy : y = lastRow (closed.length + 1)) (hx : x < 80)
    (hrow : ∀ x' < 80, row'.getD x' 0x20 = if x' = x then v.setWidth 8 else row.getD x' 0x20) :
    Shows (m.poke (y*80 + x) v) (closed ++ [row']) := by
  refine h.edit fun r hr x' hx' => ?_
  have hcell : (m.poke (y*80 + x) v).charAt (r*80 + x') =
      if r*80 + x' = y*80 + x then v.setWidth 8 else m.charAt (r*80 + x') := by
    simp only [Monitor.charAt, Monitor.poke]
    split_ifs <;> rfl
  rw [hcell]
  by_cases hrow' : r = lastRow (closed.length + 1)
  · rw [if_pos hrow', hrow x' hx', h r hr x' hx', screenChar_last hrow']
    by_cases hcol : x' = x
    · rw [if_pos (by omega), if_pos hcol]
    · rw [if_neg (by omega), if_neg hcol]
  · rw [if_neg hrow', if_neg (by omega)]

/-! ## A new row -/

theorem scroll_of_full (h : 25 ≤ m.cursorY.toNat) : scroll m =
    { m with
      videoMemory := fun j => if 24*80 ≤ j ∧ j < 24*80 + 1*80 then m.blank
        else if 0 ≤ j ∧ j < 0 + 24*80 then m.videoMemory (j + 80) else m.videoMemory j
      cursorY := 24
      stores := (List.range' (24*80) (1*80)).reverse ++ ((List.range' 0 (24*80)).reverse ++ m.stores) } := by
  rw [scroll, if_pos h, copyRows_eq, fillCells_eq]

/-- The cursor has moved to the next row, and the screen scrolls where there is none. -/
theorem scroll_newRow (h : Shows m rows) (hrows : rows ≠ [])
    (hy : m.cursorY.toNat = lastRow rows.length + 1) :
    Shows (scroll m) (rows ++ [[]]) ∧ (scroll m).cursorX = m.cursorX ∧
      (scroll m).cursorY.toNat = lastRow (rows.length + 1) := by
  have hpos := List.length_pos_of_ne_nil hrows
  by_cases hfull : 25 ≤ rows.length
  · rw [scroll_of_full (by unfold lastRow at hy; omega)]
    refine ⟨fun r hr x hx => ?_, rfl, ?_⟩
    · rw [screenChar_push hfull hr]
      unfold Monitor.charAt
      dsimp only
      by_cases hlast : r < 24
      · rw [if_neg (by omega), if_pos (by omega), if_pos hlast, ← h (r+1) (by omega) x hx]
        unfold Monitor.charAt
        congr 2
        omega
      · rw [if_pos (by omega), if_neg hlast]
        exact blank_char m
    · unfold lastRow
      have : (24 : BitVec 8).toNat = 24 := rfl
      dsimp only
      omega
  · have hscroll : scroll m = m := if_neg (by unfold lastRow at hy; omega)
    rw [hscroll]
    refine ⟨fun r hr x hx => ?_, rfl, by unfold lastRow at *; omega⟩
    rw [screenChar_room (by omega)]
    exact h r hr x hx

theorem scroll_of_room (h : m.cursorY.toNat < 25) : scroll m = m := if_neg (by omega)

/-! ## One character -/

theorem toInt_printable (c : BitVec 8) : c.toInt ≥ 0x20 ↔ 0x20 ≤ c.toNat ∧ c.toNat ≤ 0x7F := by
  revert c
  decide

theorem tab_stop (x : BitVec 8) (hx : x.toNat < 80) :
    ((x + 8) &&& ~~~(8 - 1)).toNat = x.toNat + (8 - x.toNat % 8) := by
  revert x
  decide

theorem moveCursor_displays (h : Displays m t) : Displays (moveCursor m) t := ⟨h.1, h.2, h.3, h.4⟩

/-- The row is closed by the character. -/
theorem close_displays (h : Shows m t.rows) (hx : m.cursorX = 0)
    (hy : m.cursorY.toNat = lastRow t.rows.length + 1) :
    Displays (moveCursor (scroll (wrapCursor m))) t.close := by
  have hwrap : wrapCursor m = m := by
    rw [wrapCursor, hx]
    rfl
  obtain ⟨hshows, hx', hy'⟩ := scroll_newRow h (by simp [Terminal.rows]) hy
  rw [hwrap]
  refine moveCursor_displays ⟨hshows, ?_, ?_, by simp [Terminal.close]⟩
  · rw [hx', hx]
    rfl
  · rw [hy']
    simp [Terminal.close, Terminal.rows]

/-- The row was edited; if it is full now, the cursor wraps. -/
theorem settle_displays (h : Shows m t.rows) (hx : m.cursorX.toNat = t.current.length)
    (hy : m.cursorY.toNat = lastRow t.rows.length) (hle : t.current.length ≤ 80) :
    Displays (moveCursor (scroll (wrapCursor m))) t.settle := by
  have hrow : lastRow t.rows.length ≤ 24 := Nat.min_le_right _ _
  unfold Terminal.settle
  by_cases hfull : t.current.length = 80
  · rw [if_pos hfull]
    have hwrap : wrapCursor m = { m with cursorX := 0, cursorY := m.cursorY + 1 } :=
      if_pos (by omega)
    have hy1 : (m.cursorY + 1).toNat = lastRow t.rows.length + 1 := by
      rw [← hy] at hrow ⊢
      bv_omega
    have hclose := close_displays (m := wrapCursor m) (t := t) (by rw [hwrap]; exact h)
      (by rw [hwrap]) (by rw [hwrap]; exact hy1)
    have hagain : wrapCursor (wrapCursor m) = wrapCursor m := by
      rw [hwrap]
      rfl
    rwa [hagain] at hclose
  · rw [if_neg hfull]
    have hwrap : wrapCursor m = m := if_neg (by omega)
    rw [hwrap, scroll_of_room (by omega)]
    exact moveCursor_displays ⟨h, hx, hy, by omega⟩

/-- The five kinds of characters. -/
inductive Kind (c : BitVec 8) : Prop
  | printable : 0x20 ≤ c.toNat ∧ c.toNat ≤ 0x7F → Kind c
  | tab : c = 0x09 → Kind c
  | backspace : c = 0x08 → Kind c
  | newline : c = 0x0A ∨ c = 0x0D → Kind c
  | ignored : ¬ (0x20 ≤ c.toNat ∧ c.toNat ≤ 0x7F) → c ≠ 0x09 → c ≠ 0x08 → ¬ (c = 0x0A ∨ c = 0x0D) → Kind c

theorem kind (c : BitVec 8) : Kind c := by
  by_cases h1 : 0x20 ≤ c.toNat ∧ c.toNat ≤ 0x7F
  · exact .printable h1
  by_cases h2 : c = 0x09
  · exact .tab h2
  by_cases h3 : c = 0x08
  · exact .backspace h3
  by_cases h4 : c = 0x0A ∨ c = 0x0D
  · exact .newline h4
  exact .ignored h1 h2 h3 h4

theorem placeChar_printable (h : 0x20 ≤ c.toNat ∧ c.toNat ≤ 0x7F) : placeChar c m =
    { m.poke m.location (c.signExtend 16 ||| m.attribute) with cursorX := m.cursorX + 1 } := by
  have hne : ∀ d : BitVec 8, d.toNat < 0x20 → c ≠ d := by
    rintro d hd rfl
    omega
  rw [placeChar, if_neg (fun hand => hne _ (by decide) hand.1), if_neg (hne _ (by decide)),
    if_neg (fun hor => hor.elim (hne _ (by decide)) (hne _ (by decide))),
    if_pos ((toInt_printable c).mpr h)]
  rfl

theorem placeChar_backspace (h : m.cursorX ≠ 0) : placeChar 0x08 m =
    { m with cursorX := m.cursorX - 1 }.poke (m.cursorY.toNat*80 + (m.cursorX - 1).toNat) m.blank := by
  rw [placeChar, if_pos ⟨rfl, h⟩]
  rfl

theorem placeChar_backspace_start (h : m.cursorX = 0) : placeChar 0x08 m = m := by
  rw [placeChar, if_neg (fun hand => hand.2 h), if_neg (by decide), if_neg (by decide),
    if_neg (by decide)]

theorem placeChar_tab : placeChar 0x09 m =
    { m with cursorX := (m.cursorX + 8) &&& ~~~(8 - 1) } := by
  rw [placeChar, if_neg (fun hand => absurd hand.1 (by decide)), if_pos rfl]

theorem placeChar_newline (h : c = 0x0A ∨ c = 0x0D) : placeChar c m =
    { m with cursorX := 0, cursorY := m.cursorY + 1 } := by
  rcases h with rfl | rfl <;>
    rw [placeChar, if_neg (fun hand => absurd hand.1 (by decide)), if_neg (by decide),
      if_pos (by decide)]

theorem placeChar_ignored (h1 : ¬ (0x20 ≤ c.toNat ∧ c.toNat ≤ 0x7F)) (h2 : c ≠ 0x09) (h3 : c ≠ 0x08)
    (h4 : ¬ (c = 0x0A ∨ c = 0x0D)) : placeChar c m = m := by
  rw [placeChar, if_neg (fun hand => h3 hand.1), if_neg h2, if_neg h4,
    if_neg (fun hge => h1 ((toInt_printable c).mp hge))]

theorem settle_of_lt (h : t.current.length < 80) : t.settle = t := if_neg (by omega)

theorem getD_push (row : List (BitVec 8)) (c : BitVec 8) (x : ℕ) :
    (row ++ [c]).getD x 0x20 = if x = row.length then c else row.getD x 0x20 := by
  simp only [List.getD_eq_getElem?_getD]
  rcases lt_trichotomy x row.length with hlt | heq | hgt
  · rw [List.getElem?_append_left hlt, if_neg (by omega)]
  · rw [heq, List.getElem?_concat_length, if_pos rfl]
    rfl
  · rw [List.getElem?_eq_none (by simp; omega), if_neg (by omega), List.getElem?_eq_none hgt.le]

theorem getD_pad (row : List (BitVec 8)) (n x : ℕ) :
    (row ++ List.replicate n 0x20).getD x 0x20 = row.getD x 0x20 := by
  simp only [List.getD_eq_getElem?_getD]
  rcases lt_or_ge x row.length with hlt | hge
  · rw [List.getElem?_append_left hlt]
  · rw [List.getElem?_append_right hge, List.getElem?_eq_none hge, List.getElem?_replicate]
    split_ifs <;> rfl

/-- Blanks behind the text of a row do not show. -/
theorem Shows.pad (h : Shows m (closed ++ [row])) (n : ℕ) :
    Shows m (closed ++ [row ++ List.replicate n 0x20]) := by
  refine h.edit fun r hr x hx => ?_
  rw [getD_pad]
  by_cases hlast : r = lastRow (closed.length + 1)
  · rw [if_pos hlast, ← screenChar_last hlast]
    exact h r hr x hx
  · rw [if_neg hlast]

theorem getD_dropLast (row : List (BitVec 8)) (x : ℕ) (h : 0 < row.length) :
    row.dropLast.getD x 0x20 = if x = row.length - 1 then 0x20 else row.getD x 0x20 := by
  simp only [List.getD_eq_getElem?_getD, List.getElem?_dropLast]
  by_cases hlt : x < row.length - 1
  · rw [if_pos hlt, if_neg (by omega)]
  · rw [if_neg hlt]
    split_ifs with heq
    · rfl
    · rw [List.getElem?_eq_none (by omega)]

/-- The terminal's step is what the monitor does with the character. -/
theorem monitorPut_displays (c : BitVec 8) (h : Displays m t) :
    Displays (monitorPut c m) (t.put c) := by
  obtain ⟨hshows, hx, hy, hopen⟩ := h
  have hrow : lastRow (t.closed.length + 1) ≤ 24 := Nat.min_le_right _ _
  have hlen : ∀ row, (Terminal.rows ⟨t.closed, row⟩).length = t.closed.length + 1 := by
    simp [Terminal.rows]
  rw [hlen] at hy
  unfold monitorPut
  cases kind c with
  | printable hc =>
    rw [placeChar_printable hc, Terminal.put, if_pos hc]
    have hx1 : (m.cursorX + 1).toNat = t.current.length + 1 := by
      rw [← hx] at hopen ⊢
      bv_omega
    refine settle_displays ?_ ?_ ?_ ?_
    · refine Shows.poke (m := m) hshows hy (by omega) fun x _ => ?_
      rw [cell_char, hx]
      exact getD_push _ _ _
    · simp only [Terminal.append, List.length_append, List.length_singleton]
      exact hx1
    · rw [Terminal.append, hlen]
      exact hy
    · simp only [Terminal.append, List.length_append, List.length_singleton]
      omega
  | tab hc =>
    subst hc
    have hput : t.put 0x09 =
        (t.append (List.replicate (8 - t.current.length % 8) 0x20)).settle := by
      rw [Terminal.put, if_neg (by decide), if_pos rfl]
    rw [placeChar_tab, hput]
    have hstop := tab_stop m.cursorX (by omega)
    rw [hx] at hstop
    refine settle_displays ?_ ?_ ?_ ?_
    · exact Shows.pad (m := m) hshows _
    · simp only [Terminal.append, List.length_append, List.length_replicate]
      exact hstop
    · rw [Terminal.append, hlen]
      exact hy
    · simp only [Terminal.append, List.length_append, List.length_replicate]
      omega
  | backspace hc =>
    subst hc
    have hput : t.put 0x08 = ⟨t.closed, t.current.dropLast⟩ := by
      rw [Terminal.put, if_neg (by decide), if_neg (by decide), if_pos rfl]
    have hshort : t.current.dropLast.length = t.current.length - 1 := List.length_dropLast
    have hkeep : Terminal.settle ⟨t.closed, t.current.dropLast⟩ = ⟨t.closed, t.current.dropLast⟩ :=
      settle_of_lt (by dsimp only; omega)
    rw [hput, ← hkeep]
    by_cases hzero : m.cursorX = 0
    · -- the row is empty and stays so
      have hempty : t.current = [] := by
        rw [← List.length_eq_zero_iff, ← hx, hzero]
        rfl
      rw [placeChar_backspace_start hzero, hempty]
      rw [Terminal.rows, hempty] at hshows
      refine settle_displays hshows ?_ (by rw [List.dropLast_nil, hlen, hy]) (by simp)
      rw [hzero]
      rfl
    · rw [placeChar_backspace hzero]
      have hpos : 0 < t.current.length := by
        rw [← hx]
        bv_omega
      have hx1 : (m.cursorX - 1).toNat = t.current.length - 1 := by
        rw [← hx] at hpos ⊢
        bv_omega
      rw [hx1]
      refine settle_displays ?_ ?_ ?_ (by dsimp only; omega)
      · refine Shows.poke (m := { m with cursorX := m.cursorX - 1 }) hshows hy (by omega)
          fun x _ => ?_
        rw [blank_char]
        exact getD_dropLast _ _ hpos
      · rw [hshort]
        exact hx1
      · rw [hlen]
        exact hy
  | newline hc =>
    have hput : t.put c = t.close := by
      rcases hc with rfl | rfl <;>
        rw [Terminal.put, if_neg (by decide), if_neg (by decide), if_neg (by decide),
          if_pos (by decide)]
    rw [placeChar_newline hc, hput]
    refine close_displays hshows rfl ?_
    rw [hlen, ← hy]
    rw [← hy] at hrow
    dsimp only
    bv_omega
  | ignored h1 h2 h3 h4 =>
    rw [placeChar_ignored h1 h2 h3 h4, Terminal.put, if_neg h1, if_neg h2, if_neg h3, if_neg h4,
      ← settle_of_lt hopen]
    exact settle_displays hshows hx (by rw [hlen, hy]) (by omega)

/-! ## Stores -/

/-- Every store since `m` was to one of the 2000 cells. -/
def StoresInside (m m' : Monitor) : Prop :=
  ∃ made, m'.stores = made ++ m.stores ∧ ∀ i ∈ made, i < 2000

theorem StoresInside.of_eq (h : m'.stores = m.stores) : StoresInside m m' := ⟨[], by simp [h], by simp⟩

theorem StoresInside.trans {m'' : Monitor} (h : StoresInside m m') (h' : StoresInside m' m'') :
    StoresInside m m'' := by
  obtain ⟨made, hmade, hin⟩ := h
  obtain ⟨made', hmade', hin'⟩ := h'
  refine ⟨made' ++ made, by rw [hmade', hmade, List.append_assoc], fun i hi => ?_⟩
  rcases List.mem_append.mp hi with hi | hi
  · exact hin' i hi
  · exact hin i hi

theorem StoresInside.poke {i : ℕ} {v : BitVec 16} (h : i < 2000) : StoresInside m (m.poke i v) :=
  ⟨[i], rfl, by simpa using h⟩

theorem placeChar_stores (c : BitVec 8) (h : Displays m t) : StoresInside m (placeChar c m) := by
  obtain ⟨_, hx, hy, hopen⟩ := h
  have hrow : lastRow t.rows.length ≤ 24 := Nat.min_le_right _ _
  cases kind c with
  | printable hc =>
    rw [placeChar_printable hc]
    have hloc : m.location < 2000 := by
      unfold Monitor.location
      omega
    exact (StoresInside.poke (v := c.signExtend 16 ||| m.attribute) hloc).trans (StoresInside.of_eq rfl)
  | tab hc =>
    rw [hc, placeChar_tab]
    exact StoresInside.of_eq rfl
  | backspace hc =>
    rw [hc]
    by_cases hzero : m.cursorX = 0
    · rw [placeChar_backspace_start hzero]
      exact StoresInside.of_eq rfl
    · rw [placeChar_backspace hzero]
      refine (StoresInside.of_eq rfl).trans (StoresInside.poke ?_)
      have : (m.cursorX - 1).toNat < 80 := by
        rw [← hx] at hopen
        bv_omega
      omega
  | newline hc =>
    rw [placeChar_newline hc]
    exact StoresInside.of_eq rfl
  | ignored h1 h2 h3 h4 =>
    rw [placeChar_ignored h1 h2 h3 h4]
    exact StoresInside.of_eq rfl

theorem scroll_stores (m : Monitor) : StoresInside m (scroll m) := by
  by_cases h : 25 ≤ m.cursorY.toNat
  · rw [scroll_of_full h]
    refine ⟨(List.range' (24*80) (1*80)).reverse ++ (List.range' 0 (24*80)).reverse,
      (List.append_assoc _ _ _).symm, fun i hi => ?_⟩
    rw [List.mem_append, List.mem_reverse, List.mem_reverse, List.mem_range'_1, List.mem_range'_1] at hi
    omega
  · rw [scroll, if_neg h]
    exact StoresInside.of_eq rfl

theorem monitorPut_stores (c : BitVec 8) (h : Displays m t) : StoresInside m (monitorPut c m) := by
  have hwrap : StoresInside (placeChar c m) (wrapCursor (placeChar c m)) := by
    apply StoresInside.of_eq
    unfold wrapCursor
    split_ifs <;> rfl
  exact (((placeChar_stores c h).trans hwrap).trans (scroll_stores _)).trans
    (StoresInside.of_eq (moveCursor_stores _))

/-! ## The law -/

/-- A call of `monitor_put`, or new values for the colours. -/
inductive Output
  | put (c : BitVec 8)
  | color (background foreground : BitVec 8)

def Monitor.output (m : Monitor) : Output → Monitor
  | .put c => monitorPut c m
  | .color background foreground =>
    { m with backgroundColor := background, foregroundColor := foreground }

def Terminal.output (t : Terminal) : Output → Terminal
  | .put c => t.put c
  | .color _ _ => t

theorem Displays.location_lt (h : Displays m t) : m.location < 2000 := by
  have hrow : lastRow t.rows.length ≤ 24 := Nat.min_le_right _ _
  have hy := h.cursorY
  have hx := h.cursorX
  have hopen := h.short
  unfold Monitor.location
  omega

theorem monitorClear_displays (m : Monitor) : Displays (monitorClear m) Terminal.empty := by
  refine moveCursor_displays ⟨?_, rfl, rfl, by decide⟩
  rw [fillCells_eq]
  intro r hr x hx
  unfold Monitor.charAt
  dsimp only
  have hblank : screenChar Terminal.empty.rows r x = 0x20 := by
    rw [screenChar_eq]
    cases r <;> rfl
  rw [if_pos (by omega), hblank]
  exact blank_char m

theorem monitorClear_stores (m : Monitor) : StoresInside m (monitorClear m) := by
  refine ⟨(List.range' 0 (80*25)).reverse, ?_, fun i hi => ?_⟩
  · rw [monitorClear, moveCursor_stores, fillCells_eq]
  · rw [List.mem_reverse, List.mem_range'_1] at hi
    omega

theorem output_step (o : Output) (h : Displays m t) (hsent : SentCursor m.ports m.location) :
    Displays (m.output o) (t.output o) ∧ SentCursor (m.output o).ports (m.output o).location ∧
      StoresInside m (m.output o) := by
  cases o with
  | put c =>
    have hput := monitorPut_displays c h
    have hloc := hput.location_lt
    rw [monitorPut, moveCursor_location] at hloc
    exact ⟨hput, moveCursor_sent (hloc.trans (by decide)), monitorPut_stores c h⟩
  | color background foreground => exact ⟨⟨h.1, h.2, h.3, h.4⟩, hsent, StoresInside.of_eq rfl⟩

theorem output_run (os : List Output) (h : Displays m t) (hsent : SentCursor m.ports m.location) :
    Displays (os.foldl Monitor.output m) (os.foldl Terminal.output t) ∧
      SentCursor (os.foldl Monitor.output m).ports (os.foldl Monitor.output m).location ∧
      StoresInside m (os.foldl Monitor.output m) := by
  induction os generalizing m t with
  | nil => exact ⟨h, hsent, StoresInside.of_eq rfl⟩
  | cons o os ih =>
    obtain ⟨hstep, hsent1, hstores⟩ := output_step o h hsent
    obtain ⟨hrun, hsent2, hstores'⟩ := ih hstep hsent1
    exact ⟨hrun, hsent2, hstores.trans hstores'⟩

/-- After any output the framebuffer shows the terminal's rows, the cursor is at the end of the
current row and was sent to the ports, and every store was to one of the 2000 cells. -/
theorem monitor_is_terminal (m : Monitor) (os : List Output) :
    Displays (os.foldl Monitor.output (monitorClear m)) (os.foldl Terminal.output Terminal.empty) ∧
      SentCursor (os.foldl Monitor.output (monitorClear m)).ports
        (os.foldl Monitor.output (monitorClear m)).location ∧
      StoresInside m (os.foldl Monitor.output (monitorClear m)) := by
  have hclear := monitorClear_displays m
  have hloc := hclear.location_lt
  rw [monitorClear, moveCursor_location] at hloc
  obtain ⟨hrun, hsent, hstores⟩ := output_run os hclear (moveCursor_sent (hloc.trans (by decide)))
  exact ⟨hrun, hsent, (monitorClear_stores m).trans hstores⟩

end PandaOS
