-- SUMMARY: What `uart_printf` sends: the text of its format, with every conversion replaced by the text of its argument.
import MsTos.Lib.Greedy
import MsTos.Printf

namespace MsTos

variable {mem : BitVec 16 → Byte} {p : BitVec 16} {a rest ws : List (BitVec 16)}
  {s out sent : List Byte} {c : Byte} {d k x fuel : Nat}

/-! ## Characters and strings -/

@[simp] theorem uartPutc_setWidth (c : Byte) : uartPutc (c.setWidth 16) = [c] := by
  simp [uartPutc, uartSendByte]

/-- The string that ends before the first 0 from `p` on. -/
def StringAt (mem : BitVec 16 → Byte) (p : BitVec 16) : List Byte → Prop
  | [] => mem p = 0
  | c :: s => mem p = c ∧ c ≠ 0 ∧ StringAt mem (p + 1) s

theorem add_ofNat_succ (p : BitVec 16) (i : Nat) :
    p + 1 + BitVec.ofNat 16 i = p + BitVec.ofNat 16 (i + 1) := by
  rw [BitVec.ofNat_add, BitVec.add_assoc]
  exact congrArg (p + ·) (BitVec.add_comm _ _)

theorem StringAt.ne_zero (h : StringAt mem p s) {i : Nat} (hi : i < s.length) :
    mem (p + BitVec.ofNat 16 i) ≠ 0 := by
  induction s generalizing p i with
  | nil => simp at hi
  | cons c s ih =>
      obtain ⟨hc, hne, h⟩ := h
      cases i with
      | zero => simpa [hc] using hne
      | succ i =>
          rw [← add_ofNat_succ]
          exact ih h (Nat.lt_of_succ_lt_succ hi)

theorem StringAt.zero (h : StringAt mem p s) : mem (p + BitVec.ofNat 16 s.length) = 0 := by
  induction s generalizing p with
  | nil => simpa [StringAt] using h
  | cons c s ih =>
      rw [List.length_cons, ← add_ofNat_succ]
      exact ih h.2.2

/-- The terminating 0 lies in the memory. -/
theorem StringAt.length_lt (h : StringAt mem p s) : s.length < wordSize := by
  by_contra hlen
  have hlen : 65536 ≤ s.length := Nat.le_of_not_lt hlen
  refine h.ne_zero (i := s.length - 65536) (by omega) ?_
  have : BitVec.ofNat 16 (s.length - 65536) = BitVec.ofNat 16 s.length := by
    apply BitVec.eq_of_toNat_eq
    simp only [BitVec.toNat_ofNat]
    omega
  rw [this]
  exact h.zero

theorem StringAt.putsLoop (h : StringAt mem p s) (hf : s.length < fuel) :
    uartPutsLoop mem fuel p = some s := by
  induction fuel generalizing p s with
  | zero => omega
  | succ fuel ih =>
      cases s with
      | nil => simp [uartPutsLoop, show mem p = 0 from h]
      | cons c s =>
          obtain ⟨rfl, hne, h⟩ := h
          rw [uartPutsLoop, if_pos hne, ih h (Nat.lt_of_succ_lt_succ hf), uartPutc_setWidth]
          rfl

theorem stringAt_of_putsLoop (h : uartPutsLoop mem fuel p = some s) : StringAt mem p s := by
  induction fuel generalizing p s with
  | zero => cases h
  | succ fuel ih =>
      unfold uartPutsLoop at h
      split at h
      · rename_i hne
        obtain ⟨s', hs', rfl⟩ := Option.map_eq_some_iff.1 h
        rw [uartPutc_setWidth]
        exact ⟨rfl, hne, ih hs'⟩
      · rename_i hz
        cases h
        simpa [StringAt] using hz

/-- `uart_puts` returns where there is a string, and sends it. -/
theorem uartPuts_iff : uartPuts mem p = some s ↔ StringAt mem p s :=
  ⟨stringAt_of_putsLoop, fun h => h.putsLoop h.length_lt⟩

/-! ## Decimal numbers -/

/-- A number in decimal notation. -/
def decimal (z : Int) : List Byte := (toString z).toList.map chr

theorem decimal_natCast (n : Nat) : decimal n = (Nat.toDigits 10 n).map chr := by
  show (Nat.repr n).toList.map chr = _
  rw [Nat.toList_repr]

theorem decimal_neg {n : Nat} (hn : 0 < n) : decimal (-n) = chr '-' :: decimal n := by
  obtain ⟨m, rfl⟩ := Nat.exists_eq_succ_of_ne_zero hn.ne'
  rw [decimal_natCast]
  show ("-" ++ Nat.repr (m + 1)).toList.map chr = _
  rw [String.toList_append, Nat.toList_repr]
  rfl

theorem chr_digitChar (hd : d < 10) : chr '0' + BitVec.ofNat 8 d = chr (Nat.digitChar d) := by
  have h : ∀ d : Fin 10, chr '0' + BitVec.ofNat 8 d = chr (Nat.digitChar d) := by decide
  exact h ⟨d, hd⟩

/-- The loop counts how often `d` fits. -/
theorem xtoaDigit_eq (hd : 0 < d) (hx : x ≤ fuel) :
    xtoaDigit d fuel c x = (c + BitVec.ofNat 8 (x / d), x % d) := by
  induction fuel generalizing c x with
  | zero =>
      obtain rfl : x = 0 := by omega
      simp [xtoaDigit]
  | succ fuel ih =>
      unfold xtoaDigit
      split
      · rename_i hle
        rw [ih (by omega), ← Nat.mod_eq_sub_mod hle]
        have hdiv : x / d = (x - d) / d + 1 := by
          rw [Nat.div_eq_sub_div hd hle]
        rw [hdiv, BitVec.ofNat_add, BitVec.add_assoc, BitVec.add_comm 1]
        rfl
      · rename_i hlt
        have hlt := Nat.lt_of_not_le hlt
        simp [Nat.div_eq_of_lt hlt, Nat.mod_eq_of_lt hlt]

theorem xtoaSkip_eq {dp : List Nat} (h : Greedy.skip dp x ≠ []) :
    xtoaSkip x dp = some (Greedy.skip dp x) := by
  induction dp with
  | nil => exact absurd rfl h
  | cons d dp ih =>
      unfold xtoaSkip Greedy.skip
      unfold Greedy.skip at h
      split
      · rename_i hlt
        rw [if_pos hlt] at h
        exact ih h
      · rfl

/-- The powers of ten are even but for the last one, where the loop ends. -/
theorem xtoaLoop_powers (k x : Nat) : xtoaLoop (Greedy.powers 10 (k + 1)) x =
    some ((Greedy.digits (Greedy.powers 10 (k + 1)) x).map
      fun d => chr '0' + BitVec.ofNat 8 d) := by
  induction k generalizing x with
  | zero =>
      simp only [Greedy.powers, xtoaLoop, xtoaDigit_eq (d := 10 ^ 0) Nat.one_pos le_rfl,
        uartPutc_setWidth]
      rfl
  | succ k ih =>
      have heven : 10 ^ (k + 1) % 2 = 0 := by omega
      rw [Greedy.powers, xtoaLoop, xtoaDigit_eq (Nat.pow_pos (by decide)) le_rfl, if_pos heven, ih]
      simp [Greedy.digits]

/-- A number that is not longer than the table is sent in decimal notation. -/
theorem xtoa_of_lt (hx : x < 10 ^ k) : xtoa x (Greedy.powers 10 k) = some (decimal x) := by
  unfold xtoa
  split
  · rename_i hne
    obtain ⟨j, hj, hle, hlt⟩ := Greedy.skip_powers (Nat.pos_of_ne_zero hne) hx
    have hskip : Greedy.skip (Greedy.powers 10 k) x ≠ [] := by
      rw [hj]
      exact List.cons_ne_nil _ _
    rw [xtoaSkip_eq hskip, hj, decimal_natCast, Greedy.toDigits_eq (by decide) hle hlt,
      List.map_map]
    refine (xtoaLoop_powers j x).trans (congrArg some (List.map_congr_left fun d hd => ?_))
    exact chr_digitChar (Greedy.digits_powers_lt (by decide) hlt d hd)
  · rename_i hz
    obtain rfl : x = 0 := by omega
    rfl

theorem length_decimal_le_iff (hk : 0 < k) : (decimal x).length ≤ k ↔ x < 10 ^ k := by
  rw [decimal_natCast, List.length_map, Nat.length_toDigits_le_iff (by decide) hk]

theorem xtoa_powers_iff : xtoa x (Greedy.powers 10 (k + 1)) = some (decimal x) ↔
    x < 10 ^ (k + 1) := by
  refine ⟨fun h => ?_, xtoa_of_lt⟩
  by_contra hx
  have hx : 10 ^ (k + 1) ≤ x := Nat.le_of_not_lt hx
  have hpos : 0 < 10 ^ k := Nat.pow_pos (by decide)
  have hle : 10 ^ k ≤ x := (Nat.pow_le_pow_right (by decide) (Nat.le_succ k)).trans hx
  have hskip : xtoaSkip x (Greedy.powers 10 (k + 1)) = some (Greedy.powers 10 (k + 1)) := by
    rw [Greedy.powers, xtoaSkip, if_neg (Nat.not_lt.2 hle)]
  have hlen : (decimal x).length = k + 1 := by
    unfold xtoa at h
    rw [if_pos (by omega), hskip] at h
    have h := (xtoaLoop_powers k x).symm.trans h
    rw [← Option.some.inj h]
    simp
  have := (length_decimal_le_iff (Nat.succ_pos k)).1 hlen.le
  omega

theorem drop_dv (k : Fin 10) : dv.drop k = Greedy.powers 10 (9 - k + 1) := by
  revert k
  decide

/-- From each place of its table, `xtoa` sends a number in decimal notation if and only if it has at
most as many digits as there are entries left. -/
theorem xtoa_decimal_iff (k : Fin 10) (x : Nat) :
    xtoa x (dv.drop k) = some (decimal x) ↔ x < 10 ^ (10 - k.val) := by
  rw [drop_dv, xtoa_powers_iff, show 9 - k.val + 1 = 10 - k.val by omega]

/-! ## Hexadecimal numbers -/

/-- The four digits of a number in hexadecimal notation. -/
def hexadecimal (n : Nat) : List Byte :=
  (Greedy.digits (Greedy.powers 16 4) n).map fun d => chr (Nat.digitChar d).toUpper

theorem hex_eq (hd : d < 16) : hex.getD d '0' = (Nat.digitChar d).toUpper := by
  have h : ∀ d : Fin 16, hex.getD d.val '0' = (Nat.digitChar d).toUpper := by decide
  exact h ⟨d, hd⟩

theorem puth_eq (n : BitVec 16) : puth n = [chr (Nat.digitChar (n.toNat % 16)).toUpper] := by
  have hn : (n &&& 15).toNat = n.toNat % 16 := Nat.and_two_pow_sub_one_eq_mod n.toNat 4
  rw [puth, uartPutc_setWidth, hn, hex_eq (Nat.mod_lt _ (by decide))]

/-- The sign does not reach the digit that is sent. -/
theorem sshiftRight_mod (i : BitVec 16) {j : Nat} (hj : j ≤ 12) :
    (i.sshiftRight j).toNat % 16 = i.toNat / 2 ^ j % 16 := by
  have hand : i.sshiftRight j &&& 15 = i >>> j &&& 15 := by
    apply BitVec.eq_of_getLsbD_eq
    intro b hb
    by_cases h4 : b < 4
    · have hlt : j + b < 16 := by omega
      rw [BitVec.getLsbD_and, BitVec.getLsbD_and, BitVec.getLsbD_sshiftRight,
        BitVec.getLsbD_ushiftRight, if_pos hlt]
      simp [Nat.not_le.2 hb]
    · have h15 : (15 : BitVec 16).getLsbD b = false := by
        have : (15 : Nat).testBit b = false :=
          Nat.testBit_lt_two_pow (lt_of_lt_of_le (by decide : 15 < 2 ^ 4)
            (Nat.pow_le_pow_right (by decide) (Nat.le_of_not_lt h4)))
        rw [BitVec.getLsbD, show (15 : BitVec 16).toNat = 15 from rfl, this]
      rw [BitVec.getLsbD_and, BitVec.getLsbD_and, h15, Bool.and_false, Bool.and_false]
  have hmod : ∀ n : BitVec 16, (n &&& 15).toNat = n.toNat % 16 := fun n =>
    Nat.and_two_pow_sub_one_eq_mod n.toNat 4
  rw [← hmod, hand, hmod, BitVec.toNat_ushiftRight, Nat.shiftRight_eq_div_pow]

theorem puth_hexadecimal (i : BitVec 16) :
    puth (i.sshiftRight 12) ++ puth (i.sshiftRight 8) ++ puth (i.sshiftRight 4) ++ puth i =
      hexadecimal i.toNat := by
  have h₁ : i.toNat / 2 ^ 12 % 16 = i.toNat / 16 ^ 3 := by
    have := i.isLt
    omega
  have h₂ : i.toNat / 2 ^ 8 % 16 = i.toNat % 16 ^ 3 / 16 ^ 2 := by omega
  have h₃ : i.toNat / 2 ^ 4 % 16 = i.toNat % 16 ^ 3 % 16 ^ 2 / 16 ^ 1 := by omega
  have h₄ : i.toNat % 16 = i.toNat % 16 ^ 3 % 16 ^ 2 % 16 ^ 1 / 16 ^ 0 := by omega
  simp only [puth_eq, sshiftRight_mod i (j := 12) le_rfl, sshiftRight_mod i (j := 8) (by decide),
    sshiftRight_mod i (j := 4) (by decide), h₁, h₂, h₃, h₄]
  rfl

/-! ## Conversions -/

/-- The conversions of `uart_printf`. -/
inductive Conv where
  | string | char | integer | unsigned | long | unsignedLong | hexadecimal
  deriving DecidableEq

namespace Conv

def all : List Conv := [.string, .char, .integer, .unsigned, .long, .unsignedLong, .hexadecimal]

def letter : Conv → Byte
  | .string => chr 's'
  | .char => chr 'c'
  | .integer => chr 'i'
  | .unsigned => chr 'u'
  | .long => chr 'l'
  | .unsignedLong => chr 'n'
  | .hexadecimal => chr 'x'

/-- The conversion behind a `%`. -/
def ofLetter (b : Byte) : Option Conv := all.find? fun k => k.letter = b

/-- The text of an argument. -/
inductive Prints (mem : BitVec 16 → Byte) : Conv → List (BitVec 16) → List Byte → Prop where
  | string {p : BitVec 16} {s : List Byte} : StringAt mem p s → Prints mem .string [p] s
  | char (w : BitVec 16) : Prints mem .char [w] [w.setWidth 8]
  | integer (w : BitVec 16) : Prints mem .integer [w] (decimal w.toInt)
  | unsigned (w : BitVec 16) : Prints mem .unsigned [w] (decimal w.toNat)
  | long (lo hi : BitVec 16) : Prints mem .long [lo, hi] (decimal (hi ++ lo : BitVec 32).toInt)
  | unsignedLong (lo hi : BitVec 16) :
      Prints mem .unsignedLong [lo, hi] (decimal (hi ++ lo : BitVec 32).toNat)
  | hexadecimal (w : BitVec 16) : Prints mem .hexadecimal [w] (MsTos.hexadecimal w.toNat)

theorem ofLetter_letter (k : Conv) : ofLetter k.letter = some k := by
  cases k <;> decide

theorem letter_of_ofLetter {k : Conv} (h : ofLetter c = some k) : k.letter = c := by
  simpa using List.find?_some h

theorem letter_ne (k : Conv) : k.letter ≠ 0 ∧ k.letter ≠ chr '%' := by
  cases k <;> decide

theorem mem_all (k : Conv) : k ∈ all := by
  cases k <;> decide

theorem ne_letter_of_ofLetter (h : ofLetter c = none) (k : Conv) : c ≠ k.letter := by
  have := List.find?_eq_none.1 h k (mem_all k)
  simpa [eq_comm] using this

end Conv

/-! ## Arguments -/

theorem xtoa_int (i : BitVec 16) : xtoa i.toNat (dv.drop 5) = some (decimal i.toNat) := by
  refine (xtoa_decimal_iff 5 _).2 ?_
  have := i.isLt
  show i.toNat < 10 ^ 5
  omega

theorem xtoa_long (n : BitVec 32) : xtoa n.toNat dv = some (decimal n.toNat) := by
  refine (xtoa_decimal_iff 0 _).2 ?_
  have := n.isLt
  show n.toNat < 10 ^ 10
  omega

/-- The least value of a type is its own negation, and is still sent right. -/
theorem decimal_of_slt {w : Nat} {i : BitVec w} (h : i.slt 0 = true) :
    decimal i.toInt = chr '-' :: decimal (-i).toNat := by
  have hneg : i.toInt < 0 := by simpa [BitVec.slt] using h
  have hlt := i.isLt
  have hcond := BitVec.toInt_eq_toNat_cond i
  have hnat : (-i).toNat = 2 ^ w - i.toNat := by
    rw [BitVec.toNat_neg, Nat.mod_eq_of_lt]
    split at hcond <;> omega
  have hint : i.toInt = -((-i).toNat : Int) := by
    rw [hnat]
    split at hcond <;> omega
  rw [hint]
  exact decimal_neg (by omega)

theorem decimal_of_not_slt {w : Nat} {i : BitVec w} (h : ¬ i.slt 0 = true) :
    decimal i.toInt = decimal i.toNat := by
  have hneg : ¬ i.toInt < 0 := by simpa [BitVec.slt] using h
  have hlt := i.isLt
  have hcond := BitVec.toInt_eq_toNat_cond i
  congr 1
  split at hcond <;> omega

theorem uartConvert_text (h : Conv.ofLetter c = none) :
    uartConvert mem c a = some ([c], a) := by
  have hne := Conv.ne_letter_of_ofLetter h
  have hs : c ≠ chr 's' := hne .string
  have hc : c ≠ chr 'c' := hne .char
  have hi : c ≠ chr 'i' := hne .integer
  have hu : c ≠ chr 'u' := hne .unsigned
  have hl : c ≠ chr 'l' := hne .long
  have hn : c ≠ chr 'n' := hne .unsignedLong
  have hx : c ≠ chr 'x' := hne .hexadecimal
  simp only [uartConvert, hs, hc, hi, hu, hl, hn, hx, or_self, if_false, uartPutc_setWidth]

/-- What is done with a signed `int` or `long`, once it has been fetched. -/
theorem convert_signed {w : Nat} {i : BitVec w} {dp : List Nat}
    (hx : ∀ i : BitVec w, xtoa i.toNat dp = some (decimal i.toNat)) (letter : Byte) :
    (if letter = letter ∧ i.slt 0 then
      (xtoa (-i).toNat dp).bind fun sent => some (uartPutc 45 ++ sent, rest)
    else (xtoa i.toNat dp).bind fun sent => some (sent, rest)) =
      some (decimal i.toInt, rest) := by
  split
  · rename_i hneg
    rw [hx, decimal_of_slt hneg.2]
    rfl
  · rename_i hneg
    rw [hx, decimal_of_not_slt fun h => hneg ⟨rfl, h⟩]
    rfl

/-- A conversion sends the text of its argument, which it takes off the arguments. -/
theorem Conv.Prints.convert {k : Conv} (h : k.Prints mem ws sent) (rest : List (BitVec 16)) :
    uartConvert mem k.letter (ws ++ rest) = some (sent, rest) := by
  cases h with
  | @string p _ hs =>
      show ((uartPuts mem p).bind fun sent => some (sent, rest)) = _
      rw [uartPuts_iff.2 hs]
      rfl
  | char w =>
      show some (uartPutc ((w.setWidth 8).setWidth 16), rest) = _
      rw [uartPutc_setWidth]
  | integer w => exact convert_signed xtoa_int (chr 'i')
  | unsigned w =>
      show ((xtoa w.toNat (dv.drop 5)).bind fun sent => some (sent, rest)) = _
      rw [xtoa_int]
      rfl
  | long lo hi => exact convert_signed xtoa_long (chr 'l')
  | unsignedLong lo hi =>
      show ((xtoa (hi ++ lo).toNat dv).bind fun sent => some (sent, rest)) = _
      rw [xtoa_long]
      rfl
  | hexadecimal w =>
      show some (_, rest) = _
      rw [puth_hexadecimal]

theorem Conv.Prints.exists_words {k : Conv} (hp : k.Prints mem ws out)
    (h : uartConvert mem k.letter (ws ++ a) = some (sent, rest)) :
    ∃ ws', ws ++ a = ws' ++ rest ∧ k.Prints mem ws' sent := by
  cases (hp.convert a).symm.trans h
  exact ⟨ws, rfl, hp⟩

theorem uartConvert_nil (mem : BitVec 16 → Byte) (k : Conv) : uartConvert mem k.letter [] = none := by
  cases k <;> rfl

/-- A conversion returns if and only if the words of its argument have been passed. -/
theorem uartConvert_iff {k : Conv} : uartConvert mem k.letter a = some (sent, rest) ↔
    ∃ ws, a = ws ++ rest ∧ k.Prints mem ws sent := by
  constructor
  · intro h
    cases a with
    | nil => cases (uartConvert_nil mem k).symm.trans h
    | cons w a =>
        cases k with
        | string =>
            obtain ⟨s, hs, hsent⟩ := Option.bind_eq_some_iff.1
              (show ((uartPuts mem w).bind fun sent => some (sent, a)) = some (sent, rest) from h)
            cases hsent
            exact ⟨[w], rfl, .string (uartPuts_iff.1 hs)⟩
        | char => exact (Conv.Prints.char w).exists_words h
        | integer => exact (Conv.Prints.integer w).exists_words h
        | unsigned => exact (Conv.Prints.unsigned w).exists_words h
        | hexadecimal => exact (Conv.Prints.hexadecimal w).exists_words h
        | long =>
            cases a with
            | nil => cases (show none = some (sent, rest) from h)
            | cons hi a => exact (Conv.Prints.long w hi).exists_words h
        | unsignedLong =>
            cases a with
            | nil => cases (show none = some (sent, rest) from h)
            | cons hi a => exact (Conv.Prints.unsignedLong w hi).exists_words h
  · rintro ⟨ws, rfl, h⟩
    exact h.convert rest

/-! ## Formats -/

/-- What a format consists of: characters that are sent as they are, and conversions. -/
inductive Directive where
  | text (c : Byte)
  | conv (k : Conv)
  deriving DecidableEq

namespace Directive

/-- The directives of a format, up to its first 0. -/
def parse : List Byte → List Directive
  | [] => []
  | c :: format =>
      if c = 0 then []
      else if c = chr '%' then
        match format with
        | [] => []
        | c :: format =>
            if c = 0 then []
            else ((Conv.ofLetter c).elim (.text c) .conv) :: parse format
      else .text c :: parse format

/-- The text of directives with these arguments; more may have been passed. -/
inductive Prints (mem : BitVec 16 → Byte) :
    List Directive → List (BitVec 16) → List Byte → Prop where
  | nil (a : List (BitVec 16)) : Prints mem [] a []
  | text {ds : List Directive} {a : List (BitVec 16)} {out : List Byte} (c : Byte) :
      Prints mem ds a out → Prints mem (.text c :: ds) a (c :: out)
  | conv {ds : List Directive} {ws a : List (BitVec 16)} {sent out : List Byte} {k : Conv} :
      k.Prints mem ws sent → Prints mem ds a out →
        Prints mem (.conv k :: ds) (ws ++ a) (sent ++ out)

/-- A directive in a format. -/
def format : Directive → List Byte
  | .text c => if c = chr '%' then [chr '%', chr '%'] else [c]
  | .conv k => [chr '%', k.letter]

theorem prints_text {ds : List Directive} : Prints mem (.text c :: ds) a out ↔
    ∃ out', out = c :: out' ∧ Prints mem ds a out' := by
  constructor
  · rintro (_ | ⟨_, h⟩)
    exact ⟨_, rfl, h⟩
  · rintro ⟨out', rfl, h⟩
    exact .text c h

theorem prints_conv {ds : List Directive} {k : Conv} : Prints mem (.conv k :: ds) a out ↔
    ∃ sent rest out', uartConvert mem k.letter a = some (sent, rest) ∧ out = sent ++ out' ∧
      Prints mem ds rest out' := by
  constructor
  · rintro (_ | _ | ⟨hk, h⟩)
    exact ⟨_, _, _, hk.convert _, rfl, h⟩
  · rintro ⟨sent, rest, out', hk, rfl, h⟩
    obtain ⟨ws, rfl, hw⟩ := uartConvert_iff.1 hk
    exact .conv hw h

end Directive

theorem Directive.prints_nil : Directive.Prints mem [] a out ↔ some [] = some out := by
  constructor
  · rintro ⟨⟩
    rfl
  · rintro ⟨⟩
    exact .nil a

theorem uartPrintf_text (h₀ : c ≠ 0) (h : c ≠ chr '%') : uartPrintf mem (c :: s) a =
    (uartPrintf mem s a).map (c :: ·) := by
  rw [uartPrintf.eq_def]
  simp only [if_neg h₀, if_neg h, uartPutc_setWidth, List.cons_append, List.nil_append]

/-- A format without conversions is sent as it is. -/
theorem uartPrintf_plain (h : ∀ c ∈ s, c ≠ 0 ∧ c ≠ chr '%') : uartPrintf mem s a = some s := by
  induction s with
  | nil => rfl
  | cons c s ih =>
      have hc := h c List.mem_cons_self
      have hs : uartPrintf mem s a = some s := ih fun c hc => h c (List.mem_cons_of_mem _ hc)
      simp only [uartPrintf_text hc.1 hc.2, hs, Option.map_some]

theorem uartPrintf_percent (h₀ : c ≠ 0) : uartPrintf mem (chr '%' :: c :: s) a =
    (uartConvert mem c a).bind fun r => (uartPrintf mem s r.2).map (r.1 ++ ·) := by
  rw [uartPrintf.eq_def]
  have h : chr '%' ≠ 0 := by decide
  simp only [if_neg h, if_neg h₀, if_true]
  cases uartConvert mem c a <;> rfl

/-- `uart_printf` returns if and only if the arguments fit the format, and then it has sent the text
of its directives. -/
theorem uartPrintf_iff (mem : BitVec 16 → Byte) (format : List Byte) (a : List (BitVec 16))
    (out : List Byte) : uartPrintf mem format a = some out ↔
      Directive.Prints mem (Directive.parse format) a out := by
  fun_induction Directive.parse format generalizing a out with
  | case1 => rw [Directive.prints_nil, uartPrintf]
  | case2 format =>
      rw [Directive.prints_nil, uartPrintf.eq_def]
      rfl
  | case3 =>
      rw [Directive.prints_nil]
      rfl
  | case4 =>
      rw [Directive.prints_nil]
      rfl
  | case5 c format hc _ ih =>
      rw [uartPrintf_percent hc]
      cases hk : Conv.ofLetter c with
      | none =>
          rw [uartConvert_text hk]
          simp only [Option.elim_none, Directive.prints_text, ← ih, Option.bind_some,
            Option.map_eq_some_iff, List.cons_append, List.nil_append, eq_comm (a := out),
            and_comm]
      | some k =>
          obtain rfl := Conv.letter_of_ofLetter hk
          simp only [Option.elim_some, Directive.prints_conv, ← ih, Option.bind_eq_some_iff,
            Option.map_eq_some_iff, Prod.exists]
          constructor
          · rintro ⟨sent, rest, hk, out', ho, rfl⟩
            exact ⟨sent, rest, out', hk, rfl, ho⟩
          · rintro ⟨sent, rest, out', hk, rfl, ho⟩
            exact ⟨sent, rest, hk, out', ho, rfl⟩
  | case6 c format hc hc' ih =>
      rw [uartPrintf_text hc hc', Directive.prints_text]
      simp only [← ih, Option.map_eq_some_iff, and_comm, eq_comm]

/-- Formats that send given texts: nothing but `%` is changed. -/
theorem parse_format (ds : List Directive) (h : ∀ c, .text c ∈ ds → c ≠ 0) :
    Directive.parse (ds.flatMap Directive.format) = ds := by
  induction ds with
  | nil => rfl
  | cons d ds ih =>
      have ih := ih fun c hc => h c (List.mem_cons_of_mem d hc)
      have hp : chr '%' ≠ 0 := by decide
      rw [List.flatMap_cons]
      cases d with
      | text c =>
          have h₀ := h c List.mem_cons_self
          by_cases hc : c = chr '%'
          · subst hc
            have hl : Conv.ofLetter (chr '%') = none := by decide
            simp only [Directive.format, if_true, List.cons_append, List.nil_append,
              Directive.parse, if_neg hp, hl, Option.elim_none, ih]
          · rw [Directive.format, if_neg hc, List.cons_append, List.nil_append,
              Directive.parse.eq_def]
            simp only [if_neg h₀, if_neg hc, ih]
      | conv k =>
          simp only [Directive.format, List.cons_append, List.nil_append, Directive.parse,
            if_neg hp, if_true, if_neg k.letter_ne.1, Conv.ofLetter_letter, Option.elim_some, ih]

/-- Every sequence of conversions and characters other than 0 has a format with which `uart_printf`
sends its text. -/
theorem uartPrintf_format (ds : List Directive) (h : ∀ c, .text c ∈ ds → c ≠ 0) :
    uartPrintf mem (ds.flatMap Directive.format) a = some out ↔ Directive.Prints mem ds a out := by
  rw [uartPrintf_iff, parse_format ds h]

/-- A percent sign and the least `int`. -/
theorem uartPrintf_format_integer :
    uartPrintf (fun _ => 0) ("%%%i".toList.map chr) [0x8000] = some ("%-32768".toList.map chr) := by
  refine (uartPrintf_format [.text (chr '%'), .conv .integer] ?_).2
    (.text (chr '%') (.conv (.integer 0x8000) (.nil [])))
  intro c hc
  obtain rfl : c = chr '%' := by simpa using hc
  decide

end MsTos
