-- SUMMARY: `uart_printf` and the functions of `main.c` under it, over the words that its caller has pushed.
import Mathlib.Data.List.Basic
import MsTos.Word

namespace MsTos

/-- A `char`, as it is sent. -/
abbrev Byte := BitVec 8

/-- A character constant. -/
def chr (c : Char) : Byte := BitVec.ofNat 8 c.toNat

/-! ## Sending -/

/-- `uart_send_byte`: what is sent. -/
def uartSendByte (byte : Byte) : List Byte := [byte]

/-- `uart_putc`, which first waits until the last byte is out. -/
def uartPutc (b : BitVec 16) : List Byte := uartSendByte (b.setWidth 8)

/-- The loop of `uart_puts`; without a 0 in the whole memory it does not end. -/
def uartPutsLoop (mem : BitVec 16 → Byte) : Nat → BitVec 16 → Option (List Byte)
  | 0, _ => none
  | fuel + 1, p =>
      if mem p ≠ 0 then
        (uartPutsLoop mem fuel (p + 1)).map (uartPutc ((mem p).setWidth 16) ++ ·)
      else some []

/-- `uart_puts`. -/
def uartPuts (mem : BitVec 16 → Byte) (s : BitVec 16) : Option (List Byte) :=
  uartPutsLoop mem wordSize s

/-! ## Numbers -/

/-- The table of `main.c`. A pointer into it is the part of the table that starts there. -/
def dv : List Nat :=
  [1000000000, 100000000, 10000000, 1000000, 100000, 10000, 1000, 100, 10, 1]

/-- `while (x < *dp) ++dp;`, or `none` where `dp` leaves the table. -/
def xtoaSkip (x : Nat) : List Nat → Option (List Nat)
  | [] => none
  | d :: dp => if x < d then xtoaSkip x dp else some (d :: dp)

/-- `while (x >= d) { ++c; x -= d; }`, for a positive `d`; `x` rounds are enough. -/
def xtoaDigit (d : Nat) : Nat → Byte → Nat → Byte × Nat
  | 0, c, x => (c, x)
  | fuel + 1, c, x => if d ≤ x then xtoaDigit d fuel (c + 1) (x - d) else (c, x)

/-- The `do` loop of `xtoa`, or `none` where `dp` leaves the table. -/
def xtoaLoop : List Nat → Nat → Option (List Byte)
  | [], _ => none
  | d :: dp, x =>
      let r := xtoaDigit d x (chr '0') x
      let sent := uartPutc (r.1.setWidth 16)
      if d % 2 = 0 then (xtoaLoop dp r.2).map (sent ++ ·) else some sent

/-- `xtoa`. -/
def xtoa (x : Nat) (dp : List Nat) : Option (List Byte) :=
  if x ≠ 0 then
    match xtoaSkip x dp with
    | none => none
    | some dp => xtoaLoop dp x
  else some (uartPutc 48)

/-- `hex` of `puth`. -/
def hex : List Char :=
  ['0', '1', '2', '3', '4', '5', '6', '7', '8', '9', 'A', 'B', 'C', 'D', 'E', 'F']

/-- `puth`. -/
def puth (n : BitVec 16) : List Byte :=
  uartPutc ((chr (hex.getD (n &&& 15).toNat '0')).setWidth 16)

/-! ## Arguments -/

/-- `va_arg(a, int)`, `va_arg(a, char *)` and, but for its upper half, `va_arg(a, char)`, or `none`
behind the words that have been passed. -/
def vaArg : List (BitVec 16) → Option (BitVec 16 × List (BitVec 16))
  | [] => none
  | w :: a => some (w, a)

/-- `va_arg(a, long)`: the low half comes first. -/
def vaArgLong : List (BitVec 16) → Option (BitVec 32 × List (BitVec 16))
  | lo :: hi :: a => some (hi ++ lo, a)
  | _ => none

/-! ## Formats -/

/-- The `switch` of `uart_printf`, for a `c` other than 0: what is sent, and the arguments that are
left. -/
def uartConvert (mem : BitVec 16 → Byte) (c : Byte) (a : List (BitVec 16)) :
    Option (List Byte × List (BitVec 16)) :=
  if c = chr 's' then do
    let (s, a) ← vaArg a
    let sent ← uartPuts mem s
    some (sent, a)
  else if c = chr 'c' then do
    let (w, a) ← vaArg a
    some (uartPutc ((w.setWidth 8).setWidth 16), a)
  else if c = chr 'i' ∨ c = chr 'u' then do
    let (i, a) ← vaArg a
    if c = chr 'i' ∧ i.slt 0 then
      let sent ← xtoa (-i).toNat (dv.drop 5)
      some (uartPutc 45 ++ sent, a)
    else
      let sent ← xtoa i.toNat (dv.drop 5)
      some (sent, a)
  else if c = chr 'l' ∨ c = chr 'n' then do
    let (n, a) ← vaArgLong a
    if c = chr 'l' ∧ n.slt 0 then
      let sent ← xtoa (-n).toNat dv
      some (uartPutc 45 ++ sent, a)
    else
      let sent ← xtoa n.toNat dv
      some (sent, a)
  else if c = chr 'x' then do
    let (i, a) ← vaArg a
    some (puth (i.sshiftRight 12) ++ puth (i.sshiftRight 8) ++ puth (i.sshiftRight 4) ++ puth i, a)
  else some (uartPutc (c.setWidth 16), a)

/-- `uart_printf`: what it sends. The end of `format` is its terminating 0. -/
def uartPrintf (mem : BitVec 16 → Byte) : List Byte → List (BitVec 16) → Option (List Byte)
  | [], _ => some []
  | c :: format, a =>
      if c = 0 then some []
      else if c = chr '%' then
        match format with
        | [] => some []
        | c :: format =>
            if c = 0 then some []
            else
              match uartConvert mem c a with
              | none => none
              | some (sent, a) => (uartPrintf mem format a).map (sent ++ ·)
      else (uartPrintf mem format a).map (uartPutc (c.setWidth 16) ++ ·)

end MsTos
