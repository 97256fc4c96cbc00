import Mathlib.Data.List.Basic
import Mathlib.Tactic.Ring

/-!
# Binary records: writing and reading

A library for hand-written binary codecs of the usual C++ shape: a writer that
appends little-endian words and length-prefixed strings to a buffer, and a reader
with a sticky error flag.

* A *writer* is a list of `Token`s. `bytesOf` is what the tokens put into the
  buffer; a token may also refuse to be written (a string beyond the limit), in
  which case the whole write throws (`write`).
* A *reader* (`Reader`) is the unread input, the position and the flag. Once a
  read runs past the end the flag is down, and every later read returns zero.

`ReadsTo rd ts v` says that the read `rd` returns `v` on the bytes of the tokens
`ts`, followed by anything, and stops exactly behind them; there is one rule for
each kind of token. `Lib.Decoder` builds decoders of whole records on top.
-/

namespace Wire

/-! ### Little-endian words -/

/-- The `k` low bytes of a number, least significant first. -/
def leBytes : ℕ → ℕ → List UInt8
  | 0, _ => []
  | k + 1, n => UInt8.ofNat (n % 256) :: leBytes k (n / 256)

/-- The number a little-endian byte string stands for. -/
def ofLE : List UInt8 → ℕ
  | [] => 0
  | b :: bs => b.toNat + 256 * ofLE bs

@[simp] theorem length_leBytes (k n : ℕ) : (leBytes k n).length = k := by
  induction k generalizing n with
  | zero => rfl
  | succ k ih => simp [leBytes, ih]

theorem ofLE_leBytes (k n : ℕ) (h : n < 256 ^ k) : ofLE (leBytes k n) = n := by
  induction k generalizing n with
  | zero => simp_all [leBytes, ofLE]
  | succ k ih =>
    have hdiv : n / 256 < 256 ^ k := by
      rw [Nat.div_lt_iff_lt_mul (by norm_num)]
      simpa [pow_succ] using h
    have hlow : (UInt8.ofNat (n % 256)).toNat = n % 256 := by
      simp
    rw [leBytes, ofLE, ih _ hdiv, hlow]
    omega

theorem ofLE_lt (bs : List UInt8) : ofLE bs < 256 ^ bs.length := by
  induction bs with
  | nil => simp [ofLE]
  | cons b bs ih =>
    have hb := b.toNat_lt
    rw [ofLE, List.length_cons, pow_succ]
    omega

/-- A byte string is the bytes of the number it stands for. -/
theorem leBytes_ofLE (bs : List UInt8) : leBytes bs.length (ofLE bs) = bs := by
  induction bs with
  | nil => rfl
  | cons b bs ih =>
    have hb := b.toNat_lt
    have hlow : (b.toNat + 256 * ofLE bs) % 256 = b.toNat := by omega
    have hhigh : (b.toNat + 256 * ofLE bs) / 256 = ofLE bs := by omega
    rw [List.length_cons, ofLE, leBytes, hlow, hhigh, ih, UInt8.ofNat_toNat]

/-! ### Writing -/

/-- What a writer appends to its buffer. -/
inductive Token where
  | u8 (v : UInt8)
  | u32 (v : UInt32)
  | u64 (v : UInt64)
  /-- A string behind its length; refused beyond the limit. -/
  | str (s : List UInt8)
  /-- No bytes: refuse a container of `n` entries beyond `max`. -/
  | limit (n : ℕ) (max : UInt32) (refusal : List UInt8)

/-- The limits of a codec, with the text a refused string is reported by. -/
structure Limits where
  maxLen : UInt32
  maxCount : UInt32
  tooLong : List UInt8

/-- A flag is written as one byte. -/
def Token.flag (b : Bool) : Token := .u8 (if b then 1 else 0)

/-- A container is written as its size, cut to 32 bits, and its entries. -/
def counted {A : Type} (l : List A) (entry : A → List Token) : List Token :=
  .u32 (UInt32.ofNat l.length) :: l.flatMap entry

namespace Token

/-- The bytes of a token. -/
def bytes : Token → List UInt8
  | u8 v => [v]
  | u32 v => leBytes 4 v.toNat
  | u64 v => leBytes 8 v.toNat
  | str s => leBytes 4 (s.length % 2 ^ 32) ++ s
  | limit _ _ _ => []

/-- Why a token is not written. -/
def refusal? (lim : Limits) : Token → Option (List UInt8)
  | str s => if lim.maxLen.toNat < s.length then some lim.tooLong else none
  | limit n max text => if max.toNat < n then some text else none
  | _ => none

/-- The token is written. -/
def Fits (lim : Limits) (t : Token) : Prop := t.refusal? lim = none

end Token

/-- The bytes of a list of tokens. -/
def bytesOf (ts : List Token) : List UInt8 := ts.flatMap Token.bytes

/-- The writer: the bytes, or the text of the exception. -/
def write (lim : Limits) (ts : List Token) : Except (List UInt8) (List UInt8) :=
  match ts.findSome? (Token.refusal? lim) with
  | some text => .error text
  | none => .ok (bytesOf ts)

theorem bytesOf_append (ts us : List Token) : bytesOf (ts ++ us) = bytesOf ts ++ bytesOf us :=
  List.flatMap_append

theorem write_ok {lim : Limits} {ts : List Token} {bs : List UInt8} (h : write lim ts = .ok bs) :
    bs = bytesOf ts ∧ ∀ t ∈ ts, t.Fits lim := by
  unfold write at h
  split at h
  · cases h
  · next hnone =>
    cases h
    exact ⟨rfl, fun t ht => List.findSome?_eq_none_iff.mp hnone t ht⟩

/-! ### What is written -/

/-- Every token is written. -/
def Writable (lim : Limits) (ts : List Token) : Prop := ∀ t ∈ ts, t.Fits lim

section Writable

variable {lim : Limits}

/-- A writer that refuses no token puts the bytes of all of them into the buffer. -/
theorem Writable.write_eq {ts : List Token} (h : Writable lim ts) :
    write lim ts = .ok (bytesOf ts) := by
  have hnone : ts.findSome? (Token.refusal? lim) = none := List.findSome?_eq_none_iff.mpr h
  rw [write, hnone]

@[simp] theorem writable_nil : Writable lim [] := List.forall_mem_nil _

@[simp] theorem writable_append {ts us : List Token} :
    Writable lim (ts ++ us) ↔ Writable lim ts ∧ Writable lim us := List.forall_mem_append

@[simp] theorem writable_u8 (v : UInt8) : Writable lim [.u8 v] := by
  simp [Writable, Token.Fits, Token.refusal?]

@[simp] theorem writable_u32 (v : UInt32) : Writable lim [.u32 v] := by
  simp [Writable, Token.Fits, Token.refusal?]

@[simp] theorem writable_u64 (v : UInt64) : Writable lim [.u64 v] := by
  simp [Writable, Token.Fits, Token.refusal?]

@[simp] theorem writable_flag (b : Bool) : Writable lim [.flag b] := writable_u8 _

@[simp] theorem writable_str {s : List UInt8} :
    Writable lim [.str s] ↔ s.length ≤ lim.maxLen.toNat := by
  simp [Writable, Token.Fits, Token.refusal?]

@[simp] theorem writable_limit {n : ℕ} {max : UInt32} {text : List UInt8} {ts : List Token} :
    Writable lim (.limit n max text :: ts) ↔ n ≤ max.toNat ∧ Writable lim ts := by
  simp [Writable, Token.Fits, Token.refusal?]

/-- The count of a container is written unchecked. -/
@[simp] theorem writable_counted {A : Type} {l : List A} {entry : A → List Token} :
    Writable lim (counted l entry) ↔ ∀ a ∈ l, Writable lim (entry a) := by
  have hcount : Token.Fits lim (.u32 (UInt32.ofNat l.length)) := rfl
  unfold Writable counted
  rw [List.forall_mem_cons, List.forall_mem_flatMap]
  exact and_iff_right hcount

end Writable

/-! ### How much is written -/

/-- The number of bytes of a list of tokens. -/
def size (ts : List Token) : ℕ := (bytesOf ts).length

@[simp] theorem size_nil : size [] = 0 := rfl

@[simp] theorem size_append (ts us : List Token) : size (ts ++ us) = size ts + size us := by
  rw [size, bytesOf_append, List.length_append, size, size]

@[simp] theorem size_u8 (v : UInt8) : size [.u8 v] = 1 := rfl

@[simp] theorem size_u32 (v : UInt32) : size [.u32 v] = 4 := rfl

@[simp] theorem size_u64 (v : UInt64) : size [.u64 v] = 8 := rfl

@[simp] theorem size_flag (b : Bool) : size [.flag b] = 1 := rfl

@[simp] theorem size_str (s : List UInt8) : size [.str s] = 4 + s.length := by
  simp [size, bytesOf, Token.bytes]

theorem size_flatMap {A : Type} (l : List A) (entry : A → List Token) :
    size (l.flatMap entry) = (l.map fun a => size (entry a)).sum := by
  induction l with
  | nil => rfl
  | cons a l ih => rw [List.flatMap_cons, size_append, ih, List.map_cons, List.sum_cons]

/-- A container takes its count and its entries. -/
@[simp] theorem size_counted {A : Type} (l : List A) (entry : A → List Token) :
    size (counted l entry) = 4 + (l.map fun a => size (entry a)).sum := by
  have hcons : counted l entry = [.u32 (UInt32.ofNat l.length)] ++ l.flatMap entry := rfl
  rw [hcons, size_append, size_u32, size_flatMap]

/-! ### Reading -/

/-- The reader: what is left, how far it got, and the sticky flag. -/
structure Reader where
  rest : List UInt8
  pos : ℕ
  ok : Bool

/-- Split a prefix of a given length off. -/
def splitPrefix : ℕ → List UInt8 → Option (List UInt8 × List UInt8)
  | 0, l => some ([], l)
  | _ + 1, [] => none
  | n + 1, b :: l => (splitPrefix n l).map fun p => (b :: p.1, p.2)

theorem splitPrefix_append (l rest : List UInt8) :
    splitPrefix l.length (l ++ rest) = some (l, rest) := by
  induction l with
  | nil => rfl
  | cons b l ih => simp [splitPrefix, ih]

theorem splitPrefix_eq_none {n : ℕ} {l : List UInt8} (h : l.length < n) :
    splitPrefix n l = none := by
  induction n generalizing l with
  | zero => exact absurd h (Nat.not_lt_zero _)
  | succ n ih =>
    rcases l with _ | ⟨b, l⟩
    · rfl
    · rw [splitPrefix, ih (Nat.lt_of_succ_lt_succ h), Option.map_none]

theorem splitPrefix_eq_some {n : ℕ} {l w rest : List UInt8}
    (h : splitPrefix n l = some (w, rest)) : l = w ++ rest ∧ w.length = n := by
  have hle : n ≤ l.length := by
    by_contra hc
    rw [splitPrefix_eq_none (not_le.mp hc)] at h
    cases h
  have hsplit := splitPrefix_append (l.take n) (l.drop n)
  rw [List.length_take_of_le hle, List.take_append_drop, h] at hsplit
  cases hsplit
  exact ⟨(List.take_append_drop n l).symm, List.length_take_of_le hle⟩

namespace Reader

/-- A reader at the start of a buffer. -/
def ofBytes (bs : List UInt8) : Reader := ⟨bs, 0, true⟩

/-- The next `n` bytes; nothing, and the flag goes down, when they are not there. -/
def take (n : ℕ) (r : Reader) : List UInt8 × Reader :=
  if r.ok then
    match splitPrefix n r.rest with
    | some (bs, rest) => (bs, ⟨rest, r.pos + n, true⟩)
    | none => ([], { r with ok := false })
  else ([], r)

/-- Read a byte. -/
def u8 (r : Reader) : UInt8 × Reader :=
  let b := r.take 1
  (UInt8.ofNat (ofLE b.1), b.2)

/-- Read a 32-bit word. -/
def u32 (r : Reader) : UInt32 × Reader :=
  let b := r.take 4
  (UInt32.ofNat (ofLE b.1), b.2)

/-- Read a 64-bit word. -/
def u64 (r : Reader) : UInt64 × Reader :=
  let b := r.take 8
  (UInt64.ofNat (ofLE b.1), b.2)

/-- Read a flag. -/
def flag (r : Reader) : Bool × Reader :=
  let b := r.u8
  (b.1 != 0, b.2)

/-- Read a string: its length, bounded, then its bytes. -/
def str (lim : Limits) (r : Reader) : List UInt8 × Reader :=
  let n := r.u32
  if !n.2.ok || decide (lim.maxLen < n.1) then ([], { n.2 with ok := false })
  else n.2.take n.1.toNat

/-- Read two values in order. -/
def pair {A B : Type} (a : Reader → A × Reader) (b : Reader → B × Reader) (r : Reader) :
    (A × B) × Reader :=
  let x := a r
  let y := b x.2
  ((x.1, y.1), y.2)

/-- Read a value and convert it. -/
def map {A B : Type} (f : A → B) (a : Reader → A × Reader) (r : Reader) : B × Reader :=
  let x := a r
  (f x.1, x.2)

theorem take_append (bs rest : List UInt8) (pos : ℕ) :
    take bs.length ⟨bs ++ rest, pos, true⟩ = (bs, ⟨rest, pos + bs.length, true⟩) := by
  simp [take, splitPrefix_append]

/-- A prefix that is there is read. -/
theorem take_of_le {n : ℕ} {l : List UInt8} (h : n ≤ l.length) (pos : ℕ) :
    take n ⟨l, pos, true⟩ = (l.take n, ⟨l.drop n, pos + n, true⟩) := by
  have happend := take_append (l.take n) (l.drop n) pos
  rwa [List.length_take_of_le h, List.take_append_drop] at happend

end Reader

/-- Provided the tokens `ts` fit, a read returns `v` on their bytes, whatever
follows, and stops behind them. -/
structure ReadsTo {A : Type} (lim : Limits) (rd : Reader → A × Reader) (ts : List Token)
    (v : A) : Prop where
  run : (∀ t ∈ ts, t.Fits lim) → ∀ rest pos, rd ⟨bytesOf ts ++ rest, pos, true⟩ =
    (v, ⟨rest, pos + (bytesOf ts).length, true⟩)

namespace ReadsTo

theorem take_bytes {t : Token} {k n : ℕ} (ht : t.bytes = leBytes k n) (rest : List UInt8)
    (pos : ℕ) : Reader.take k ⟨bytesOf [t] ++ rest, pos, true⟩ =
      (leBytes k n, ⟨rest, pos + (bytesOf [t]).length, true⟩) := by
  have hb : bytesOf [t] = leBytes k n := by simp [bytesOf, ht]
  have h := Reader.take_append (leBytes k n) rest pos
  rw [length_leBytes] at h
  rw [hb, h, length_leBytes]

variable {lim : Limits}

theorem u8 (v : UInt8) : ReadsTo lim Reader.u8 [.u8 v] v := by
  constructor
  intro _ rest pos
  have hb : Token.bytes (.u8 v) = leBytes 1 v.toNat := by
    simp [Token.bytes, leBytes, Nat.mod_eq_of_lt v.toNat_lt]
  rw [Reader.u8, take_bytes hb]
  simp only [ofLE_leBytes 1 v.toNat v.toNat_lt, UInt8.ofNat_toNat]

theorem u32 (v : UInt32) : ReadsTo lim Reader.u32 [.u32 v] v := by
  constructor
  intro _ rest pos
  rw [Reader.u32, take_bytes (t := .u32 v) rfl]
  simp only [ofLE_leBytes 4 v.toNat v.toNat_lt, UInt32.ofNat_toNat]

theorem u64 (v : UInt64) : ReadsTo lim Reader.u64 [.u64 v] v := by
  constructor
  intro _ rest pos
  rw [Reader.u64, take_bytes (t := .u64 v) rfl]
  simp only [ofLE_leBytes 8 v.toNat v.toNat_lt, UInt64.ofNat_toNat]

theorem flag (b : Bool) : ReadsTo lim Reader.flag [.flag b] b := by
  constructor
  intro h rest pos
  rw [Reader.flag, Token.flag, (u8 _).run h]
  cases b <;> rfl

/-- A string that fits is read back. -/
theorem str (s : List UInt8) : ReadsTo lim (Reader.str lim) [.str s] s := by
  constructor
  intro h rest pos
  -- the writer has refused longer strings, so the length is written as it is
  have hlen : s.length ≤ lim.maxLen.toNat := by
    have hs := h (.str s) (List.mem_singleton_self _)
    by_contra hc
    simp [Token.Fits, Token.refusal?, not_le.mp hc] at hs
  have hlt : s.length < 2 ^ 32 := lt_of_le_of_lt hlen lim.maxLen.toNat_lt
  have hmod : s.length % 2 ^ 32 = (UInt32.ofNat s.length).toNat := by simp
  have hb : bytesOf [.str s] ++ rest = bytesOf [.u32 (UInt32.ofNat s.length)] ++ (s ++ rest) := by
    simp only [bytesOf, List.flatMap_cons, List.flatMap_nil, Token.bytes, List.append_nil,
      List.append_assoc, hmod]
  have hn : (UInt32.ofNat s.length).toNat = s.length := by
    rw [← hmod, Nat.mod_eq_of_lt hlt]
  -- and the reader does not refuse it
  have hle : ¬ lim.maxLen < UInt32.ofNat s.length := by
    rw [UInt32.lt_iff_toNat_lt, hn]
    exact not_lt.mpr hlen
  have hfits : ∀ t ∈ [Token.u32 (UInt32.ofNat s.length)], t.Fits lim := by
    simp [Token.Fits, Token.refusal?]
  rw [Reader.str, hb, (u32 _).run hfits]
  simp only [Bool.not_true, Bool.false_or, hle, decide_false, Bool.false_eq_true, if_false, hn]
  rw [Reader.take_append]
  simp [bytesOf, Token.bytes, add_assoc]

theorem pair {A B : Type} {a : Reader → A × Reader} {b : Reader → B × Reader}
    {ts us : List Token} {x : A} {y : B} (ha : ReadsTo lim a ts x) (hb : ReadsTo lim b us y) :
    ReadsTo lim (Reader.pair a b) (ts ++ us) (x, y) := by
  constructor
  intro h rest pos
  rw [List.forall_mem_append] at h
  rw [Reader.pair, bytesOf_append, List.append_assoc, ha.run h.1]
  dsimp only
  rw [hb.run h.2, List.length_append, add_assoc]

theorem map {A B : Type} {a : Reader → A × Reader} {ts : List Token} {x : A} (f : A → B)
    (ha : ReadsTo lim a ts x) : ReadsTo lim (Reader.map f a) ts (f x) := by
  constructor
  intro h rest pos
  rw [Reader.map, ha.run h]

end ReadsTo

end Wire
