import PandaOS.Machine.State
import PandaOS.Library.Numerals
import PandaOS.Screen.Monitor

/-! `monitor_write`, `monitor_write_hex` and `monitor_write_dec`. They reach the screen through
`monitor_put` only, which is a parameter here: the characters passed to it are what `Writes` says. -/
namespace PandaOS
open Word32 Numerals
set_option autoImplicit false
set_option maxHeartbeats 250000

/-! ## The functions -/

section
variable {σ : Type} (put : BitVec 8 → σ → σ)

/-- `while (c[i]) monitor_put(c[i++]);` with `n` characters of the array left. -/
def monitorWrite (c : ℕ → BitVec 8) : ℕ → ℕ → σ → Result σ
  | 0, _, _ => .error (.undefined "no end of the string in the array")
  | n + 1, i, s => if c i = 0 then .ok s else monitorWrite c n (i + 1) (put (c i) s)

/-- `tmp-0xA+'a'` or `tmp+'0'` -/
def hexChar (tmp : ℕ) : BitVec 8 :=
  if tmp ≥ 0xA then BitVec.ofNat 8 (tmp - 0xA + 0x61) else BitVec.ofNat 8 (tmp + 0x30)

/-- `for (i = 28; i > 0; i -= 4)`, with `i/4` given. -/
def hexLoop (n : ℕ) : ℕ → Bool → σ → σ
  | 0, _, s => s
  | i + 1, noZeroes, s =>
    let tmp := n >>> (4*(i + 1)) &&& 0xF
    if tmp = 0 ∧ noZeroes then hexLoop n i noZeroes s
    else hexLoop n i false (put (hexChar tmp) s)

def monitorWriteHex (n : ℕ) (s : σ) : σ :=
  let s := put 0x78 (put 0x30 s)
  let s := hexLoop put n 7 true s
  put (hexChar (n &&& 0xF)) s

/-- `while (acc > 0) { c[i] = '0' + acc%10; acc /= 10; i++; }` -/
def digitLoop (acc : ℤ) (i : ℕ) (c : ℕ → BitVec 8) : (ℕ → BitVec 8) × ℕ :=
  if acc > 0 then
    digitLoop (acc.tdiv 10) (i + 1) (Function.update c i (BitVec.ofInt 8 (0x30 + acc.tmod 10)))
  else (c, i)
  termination_by acc.toNat
  decreasing_by
    rw [Int.tdiv_eq_ediv_of_nonneg (by omega)]
    omega

/-- `while (i >= 0) { c2[i--] = c[j++]; }` with `i + 1` rounds left. -/
def reverseLoop (c : ℕ → BitVec 8) : ℕ → ℕ → (ℕ → BitVec 8) → ℕ → BitVec 8
  | 0, _, c2 => c2
  | i + 1, j, c2 => reverseLoop c i (j + 1) (Function.update c2 i (c j))

/-- The two arrays of 32 characters hold anything at first. -/
def monitorWriteDec (c c2 : ℕ → BitVec 8) (n : ℕ) (s : σ) : Result σ :=
  if n = 0 then .ok (put 0x30 s)
  else
    let acc := toInt32 n
    let (c, i) := digitLoop acc 0 c
    let c := Function.update c i 0
    let c2 := Function.update c2 i 0
    let c2 := reverseLoop c i 0 c2
    monitorWrite put c2 32 0 s

end

/-- The digit that a character stands for. -/
def digitValue (c : BitVec 8) : Option ℕ :=
  if 0x30 ≤ c ∧ c ≤ 0x39 then some (c.toNat - 0x30)
  else if 0x61 ≤ c ∧ c ≤ 0x66 then some (c.toNat - 0x61 + 10)
  else none

/-- The characters read back as the numeral of `n`. -/
def ReadsBack (b : ℕ) (cs : List (BitVec 8)) (n : ℕ) : Prop :=
  ∃ ds, Numeral b ds n ∧ cs.map digitValue = ds.map some

/-- What `f` does is to pass these characters to `put`, in this order. -/
def Writes (f : (σ : Type) → (BitVec 8 → σ → σ) → σ → Result σ) (cs : List (BitVec 8)) : Prop :=
  ∀ σ put s, f σ put s = .ok (cs.foldl (fun s c => put c s) s)

variable {n i j : ℕ} {c c2 : ℕ → BitVec 8} {cs : List (BitVec 8)} {ds : List ℕ} {σ : Type} {put : BitVec 8 → σ → σ} {s : σ}

theorem digitValue_hexChar (h : n < 16) : digitValue (hexChar n) = some n := by
  interval_cases n <;> rfl

theorem map_digitValue (h : ∀ d ∈ ds, d < 16) : (ds.map hexChar).map digitValue = ds.map some := by
  rw [List.map_map]
  exact List.map_congr_left fun d hd => digitValue_hexChar (h d hd)

/-! ## Hexadecimal -/

/-- Nibble `i` of `n`. -/
theorem nibble_eq (n i : ℕ) : n >>> (4*i) &&& 0xF = n / 16 ^ i % 16 := by
  rw [Nat.shiftRight_eq_div_pow, pow_mul]
  exact Nat.and_two_pow_sub_one_eq_mod _ 4

/-- The loop writes the significant digits in front of the last one; the flag says that there are none yet. -/
theorem hexLoop_spec (h : Significant 16 ds (n / 16 ^ (i + 1))) :
    ∃ es, Significant 16 (ds ++ es) (n / 16) ∧
      ∀ (σ : Type) (put : BitVec 8 → σ → σ) (s : σ),
        hexLoop put n i ds.isEmpty s = (es.map hexChar).foldl (fun s c => put c s) s := by
  induction i generalizing ds with
  | zero =>
    rw [Nat.zero_add, pow_one] at h
    exact ⟨[], by rwa [List.append_nil], fun _ _ _ => rfl⟩
  | succ i ih =>
    obtain ⟨d, hd⟩ : ∃ d, d = n / 16 ^ (i + 1) % 16 := ⟨_, rfl⟩
    have hlt : d < 16 := by omega
    have hq : 16 * (n / 16 ^ (i + 1 + 1)) + d = n / 16 ^ (i + 1) := by
      rw [pow_succ 16 (i + 1), ← Nat.div_div_eq_div_mul]
      omega
    have hnibble : n >>> (4*(i + 1)) &&& 0xF = d := by rw [nibble_eq, hd]
    by_cases hskip : d = 0 ∧ ds.isEmpty = true
    · have hds : ds = [] := List.isEmpty_iff.mp hskip.2
      have hsame : n / 16 ^ (i + 1 + 1) = n / 16 ^ (i + 1) := by
        have hzero := h.value
        rw [hds] at hzero
        have : n / 16 ^ (i + 1 + 1) = 0 := hzero.symm
        omega
      rw [hsame] at h
      obtain ⟨es, hes, hrun⟩ := ih h
      refine ⟨es, hes, fun σ put s => ?_⟩
      rw [hexLoop, hnibble]
      simp only [if_pos hskip]
      exact hrun σ put s
    · have hne : ds ≠ [] ∨ d ≠ 0 := by
        rw [List.isEmpty_iff] at hskip
        tauto
      have hnext := h.snoc hlt hne
      rw [hq] at hnext
      obtain ⟨es, hes, hrun⟩ := ih hnext
      refine ⟨d :: es, by rwa [List.append_assoc] at hes, fun σ put s => ?_⟩
      have hempty : (ds ++ [d]).isEmpty = false := by simp
      rw [hempty] at hrun
      rw [hexLoop, hnibble]
      simp only [if_neg hskip, List.map_cons, List.foldl_cons]
      exact hrun σ put _

/-- `monitor_write_hex` writes `0x` and the numeral of its argument in base 16, in lower case. -/
theorem write_hex_exact (n : BitVec 32) :
    ∃ cs, Writes (fun _ put s => .ok (monitorWriteHex put n.toNat s)) (0x30 :: 0x78 :: cs) ∧ ReadsBack 16 cs n.toNat := by
  have hlt := n.isLt
  obtain ⟨m, hm⟩ : ∃ m, m = n.toNat := ⟨_, rfl⟩
  rw [← hm] at hlt ⊢
  have hstart : Significant 16 [] (m / 16 ^ (7 + 1)) := by
    have hzero : m / 16 ^ (7 + 1) = 0 := Nat.div_eq_of_lt hlt
    rw [hzero]
    exact significant_nil 16
  obtain ⟨es, hes, hrun⟩ := hexLoop_spec hstart
  have hnumeral := hes.numeral (Nat.mod_lt m (by decide : 0 < 16))
  rw [Nat.div_add_mod] at hnumeral
  refine ⟨(es ++ [m % 16]).map hexChar, fun σ put s => ?_, es ++ [m % 16], hnumeral, map_digitValue hnumeral.digits⟩
  have hlast : m &&& 0xF = m % 16 := Nat.and_two_pow_sub_one_eq_mod m 4
  have hloop : ∀ s, hexLoop put m 7 true s = (es.map hexChar).foldl (fun s c => put c s) s := hrun σ put
  unfold monitorWriteHex
  dsimp only
  rw [hloop, hlast, List.map_append, List.foldl_cons, List.foldl_cons, List.foldl_append]
  rfl

/-! ## Decimal -/

/-- The loop leaves the digits in the array from place `i` on, the least significant first. -/
theorem digitLoop_spec (n i : ℕ) (c : ℕ → BitVec 8) :
    (digitLoop n i c).2 = i + (Nat.digits 10 n).length ∧
      (∀ j < i, (digitLoop n i c).1 j = c j) ∧
      ∀ j (hj : j < (Nat.digits 10 n).length), (digitLoop n i c).1 (i + j) = hexChar (Nat.digits 10 n)[j] := by
  induction n using Nat.strong_induction_on generalizing i c with
  | _ n ih =>
    rw [digitLoop]
    by_cases hn : n = 0
    · subst hn
      rw [if_neg (by decide)]
      simp
    · have hpos : (n : ℤ) > 0 := by omega
      have hdiv : (n : ℤ).tdiv 10 = ((n / 10 : ℕ) : ℤ) := by
        rw [Int.tdiv_eq_ediv_of_nonneg (by omega)]
        rfl
      have hmod : BitVec.ofInt 8 (0x30 + (n : ℤ).tmod 10) = hexChar (n % 10) := by
        have hsum : (0x30 : ℤ) + (n : ℤ).tmod 10 = ((n % 10 + 0x30 : ℕ) : ℤ) := by
          rw [Int.tmod_eq_emod_of_nonneg (by omega)]
          omega
        have hsmall : ¬ n % 10 ≥ 0xA := by omega
        rw [hsum, hexChar, if_neg hsmall, BitVec.ofInt_natCast]
      have hdigits : Nat.digits 10 n = n % 10 :: Nat.digits 10 (n / 10) :=
        Nat.digits_eq_cons_digits_div (by decide) hn
      rw [if_pos hpos, hdiv, hmod]
      obtain ⟨hend, hbelow, hat⟩ := ih (n / 10) (by omega) (i + 1) (Function.update c i (hexChar (n % 10)))
      refine ⟨?_, fun j hj => ?_, fun j hj => ?_⟩
      · rw [hend, hdigits, List.length_cons]
        omega
      · rw [hbelow j (by omega), Function.update_of_ne (by omega)]
      · cases j with
        | zero =>
          have hself := hbelow i (by omega)
          rw [Function.update_self] at hself
          simp only [hdigits, List.getElem_cons_zero]
          exact hself
        | succ j =>
          have hlt : j < (Nat.digits 10 (n / 10)).length := by
            rw [hdigits, List.length_cons] at hj
            omega
          have hplace : i + (j + 1) = i + 1 + j := by omega
          rw [hplace, hat j hlt]
          simp only [hdigits, List.getElem_cons_succ]

theorem reverseLoop_eq (c : ℕ → BitVec 8) (n j x : ℕ) (c2 : ℕ → BitVec 8) :
    reverseLoop c n j c2 x = if x < n then c (j + (n - 1 - x)) else c2 x := by
  induction n generalizing j c2 with
  | zero => rfl
  | succ n ih =>
    rw [reverseLoop, ih]
    by_cases hlt : x < n
    · have hplace : j + 1 + (n - 1 - x) = j + (n + 1 - 1 - x) := by omega
      rw [if_pos hlt, if_pos (by omega), hplace]
    · rw [if_neg hlt]
      by_cases heq : x = n
      · have hplace : j + (n + 1 - 1 - x) = j := by omega
        rw [if_pos (by omega), hplace, heq, Function.update_self]
      · rw [Function.update_of_ne heq, if_neg (by omega)]

/-- A string that ends inside the array is written up to its end. -/
theorem monitorWrite_spec (hcs : ∀ j (hj : j < cs.length), c (i + j) = cs[j]) (hnonzero : ∀ x ∈ cs, x ≠ 0)
    (hend : c (i + cs.length) = 0) (hroom : cs.length < n) :
    monitorWrite put c n i s = .ok (cs.foldl (fun s c => put c s) s) := by
  induction cs generalizing i n s with
  | nil =>
    cases n with
    | zero => exact absurd hroom (Nat.not_lt_zero _)
    | succ n =>
      have hstop : c i = 0 := hend
      rw [monitorWrite, if_pos hstop]
      rfl
  | cons x cs ih =>
    cases n with
    | zero => exact absurd hroom (Nat.not_lt_zero _)
    | succ n =>
      have hfirst : c i = x := hcs 0 (Nat.succ_pos _)
      rw [monitorWrite, hfirst, if_neg (hnonzero x List.mem_cons_self)]
      refine ih (fun j hj => ?_) (fun y hy => hnonzero y (List.mem_cons_of_mem x hy)) ?_ (Nat.lt_of_succ_lt_succ hroom)
      · have hplace : i + 1 + j = i + (j + 1) := by omega
        rw [hplace]
        exact hcs (j + 1) (Nat.succ_lt_succ hj)
      · rw [List.length_cons] at hend
        have hplace : i + 1 + cs.length = i + (cs.length + 1) := by omega
        rw [hplace]
        exact hend

theorem hexChar_ne_zero (h : n < 16) : hexChar n ≠ 0 := by
  intro hzero
  have hvalue := digitValue_hexChar h
  rw [hzero] at hvalue
  cases hvalue

/-- Below 2^31 the digits are written. -/
theorem writes_dec (c c2 : ℕ → BitVec 8) (hn : n ≠ 0) (hlt : n < 2147483648) :
    Writes (fun _ put s => monitorWriteDec put c c2 n s) ((Nat.digits 10 n).reverse.map hexChar) := by
  intro σ put s
  obtain ⟨hend, -, hat⟩ := digitLoop_spec n 0 c
  rw [Nat.zero_add] at hend
  obtain ⟨ds, hds⟩ : ∃ ds, ds = Nat.digits 10 n := ⟨_, rfl⟩
  obtain ⟨c1, hc1⟩ : ∃ c1, c1 = (digitLoop n 0 c).1 := ⟨_, rfl⟩
  have hsmall : ds.length ≤ 10 := by
    rw [hds]
    exact (Nat.digits_length_le_iff (by decide) n).mpr (by omega)
  have hdigits : ∀ d ∈ ds, d < 16 := by
    intro d hd
    rw [hds] at hd
    have := Nat.digits_lt_base (by decide : 1 < 10) hd
    omega
  rw [← hc1, ← hds] at hat
  rw [← hds] at hend ⊢
  have hloop : digitLoop (toInt32 n) 0 c = (c1, ds.length) := by
    rw [toInt32_of_lt hlt, hc1, ← hend]
  unfold monitorWriteDec
  dsimp only
  rw [if_neg hn, hloop]
  dsimp only
  have hlength : (ds.reverse.map hexChar).length = ds.length := by simp
  refine monitorWrite_spec (fun j hj => ?_) ?_ ?_ (by omega)
  · rw [hlength] at hj
    have hplace : ds.length - 1 - j < ds.length := by omega
    rw [Nat.zero_add, reverseLoop_eq, if_pos hj, Nat.zero_add, Function.update_of_ne (by omega)]
    have hdigit := hat _ hplace
    rw [Nat.zero_add] at hdigit
    rw [hdigit, List.getElem_map, List.getElem_reverse]
  · intro x hx
    obtain ⟨d, hd, rfl⟩ := List.mem_map.mp hx
    exact hexChar_ne_zero (hdigits d (List.mem_reverse.mp hd))
  · rw [Nat.zero_add, hlength, reverseLoop_eq, if_neg (lt_irrefl _), Function.update_self]

/-- From 2^31 on the accumulator is negative, and nothing is written. -/
theorem writes_dec_negative (c c2 : ℕ → BitVec 8) (hlow : 2147483648 ≤ n) (hlt : n < 4294967296) :
    Writes (fun _ put s => monitorWriteDec put c c2 n s) [] := by
  intro σ put s
  have hneg : ¬ toInt32 n > 0 := by
    rw [toInt32, if_neg (by omega)]
    omega
  have hloop : digitLoop (toInt32 n) 0 c = (c, 0) := by
    rw [digitLoop, if_neg hneg]
  unfold monitorWriteDec
  dsimp only
  rw [if_neg (by omega), hloop]
  dsimp only
  rw [reverseLoop, monitorWrite, Function.update_self, if_pos rfl]
  rfl

/-- The characters are those that a list of the characters so far collects. -/
theorem Writes.unique {f : (σ : Type) → (BitVec 8 → σ → σ) → σ → Result σ} {cs' : List (BitVec 8)}
    (h : Writes f cs) (h' : Writes f cs') : cs = cs' := by
  have hcollect : ∀ (l : List (BitVec 8)) (s : List (BitVec 8)),
      l.foldl (fun s c => c :: s) s = l.reverse ++ s := by
    intro l
    induction l with
    | nil => exact fun s => rfl
    | cons x l ih =>
      intro s
      rw [List.foldl_cons, ih, List.reverse_cons, List.append_assoc]
      rfl
  have hrun := (h _ List.cons []).symm.trans (h' _ List.cons [])
  rw [Except.ok.injEq, hcollect, hcollect, List.append_nil, List.append_nil] at hrun
  exact List.reverse_injective hrun

/-- `monitor_write_dec` writes the decimal numeral of its argument exactly if that is below 2^31. -/
theorem write_dec_iff (c c2 : ℕ → BitVec 8) (n : BitVec 32) :
    (∃ cs, Writes (fun _ put s => monitorWriteDec put c c2 n.toNat s) cs ∧ ReadsBack 10 cs n.toNat) ↔
      n.toNat < 2147483648 := by
  have hn := n.isLt
  obtain ⟨m, hm⟩ : ∃ m, m = n.toNat := ⟨_, rfl⟩
  rw [← hm] at hn ⊢
  constructor
  · rintro ⟨cs, hwrites, ds, hnumeral, hread⟩
    by_contra hlow
    have hcs := hwrites.unique (writes_dec_negative c c2 (by omega) hn)
    rw [hcs] at hread
    exact hnumeral.nonempty (List.map_eq_nil_iff.mp hread.symm)
  · intro hlt
    by_cases hzero : m = 0
    · subst hzero
      refine ⟨[0x30], fun σ put s => rfl, [0], ⟨by simp, by simp, fun _ => rfl, rfl⟩, rfl⟩
    · have hnumeral := numeral_digits (by decide : 1 < 10) hzero
      refine ⟨_, writes_dec c c2 hzero hlt, _, hnumeral, map_digitValue fun d hd => ?_⟩
      have := hnumeral.digits d hd
      omega

theorem write_dec_empty : ¬ ∃ cs, Writes (fun _ put s => monitorWriteDec put (fun _ => 0) (fun _ => 0) 2147483648 s) cs ∧
    ReadsBack 10 cs 2147483648 := by
  rintro ⟨cs, hwrites, ds, hnumeral, hread⟩
  have hcs := hwrites.unique (writes_dec_negative (fun _ => 0) (fun _ => 0) le_rfl (by decide))
  rw [hcs] at hread
  exact hnumeral.nonempty (List.map_eq_nil_iff.mp hread.symm)

end PandaOS
