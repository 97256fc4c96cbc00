import DisaggregationFabric.Lib.Program

/-!
# Binary records: the reader with indices

The reader of `Lib.Wire` holds the bytes that are left. Below it stands the reader that a
program has: a buffer, a 64-bit index into it, and the flag. Before every access it tests that
the bytes are there, in unsigned arithmetic, and only then does it subscript.

`Program.exec` runs a program on such a `Cursor`; a subscript outside of the buffer is the
outcome `none`. On a buffer whose length a 64-bit word can hold no program has that outcome,
and its runs are those on the bytes that are left (`Program.exec_eq_run`).
-/

namespace Wire

variable {A B : Type}

/-- A buffer, an index and the flag. -/
structure Cursor where
  data : List UInt8
  pos : UInt64
  ok : Bool

namespace Cursor

/-- A cursor at the start of a buffer. -/
def ofBytes (bs : List UInt8) : Cursor := ⟨bs, 0, true⟩

/-- The size of the buffer. -/
def size (c : Cursor) : UInt64 := UInt64.ofNat c.data.length

/-- The test before an access to `n` bytes. -/
def need (c : Cursor) (n : UInt64) : Bool :=
  c.ok && decide (n ≤ c.size - c.pos) && decide (c.pos ≤ c.pos + n)

/-- The bytes at `n` indices from `pos` on, one subscript after the other. -/
def peek (data : List UInt8) : UInt64 → ℕ → Option (List UInt8)
  | _, 0 => some []
  | pos, n + 1 =>
    match data[pos.toNat]? with
    | none => none
    | some b => (peek data (pos + 1) n).map (b :: ·)

/-- The next `n` bytes; nothing, and the flag goes down, when they are not there. -/
def take (n : UInt64) (c : Cursor) : Option (List UInt8 × Cursor) :=
  if c.need n then (peek c.data c.pos n.toNat).map fun bs => (bs, { c with pos := c.pos + n })
  else some ([], { c with ok := false })

/-- Read a string: its length, bounded, then its bytes. -/
def str (lim : Limits) (c : Cursor) : Option (List UInt8 × Cursor) :=
  (c.take 4).bind fun b =>
    let n := UInt32.ofNat (ofLE b.1)
    if !b.2.ok || decide (lim.maxLen < n) then some ([], { b.2 with ok := false })
    else b.2.take n.toUInt64

/-- The bytes that are left. -/
def reader (c : Cursor) : Reader := ⟨c.data.drop c.pos.toNat, c.pos.toNat, c.ok⟩

/-- The index is within the buffer, or right behind it. -/
structure Inside (c : Cursor) : Prop where
  pos_le : c.pos.toNat ≤ c.data.length
  size_lt : c.data.length < 2 ^ 64

theorem inside_ofBytes {bs : List UInt8} (h : bs.length < 2 ^ 64) : (ofBytes bs).Inside :=
  ⟨Nat.zero_le _, h⟩

variable {c : Cursor}

/-- **The test is right.** Neither of its two differences wraps. -/
theorem need_iff (h : c.Inside) {n : UInt64} :
    c.need n = true ↔ c.ok = true ∧ c.pos.toNat + n.toNat ≤ c.data.length := by
  obtain ⟨hpos, hsize⟩ := h
  -- inside the buffer the difference does not wrap
  have hlen : c.size.toNat = c.data.length := UInt64.toNat_ofNat_of_lt' hsize
  have hdiff : (c.size - c.pos).toNat = c.data.length - c.pos.toNat := by
    rw [UInt64.toNat_sub_of_le _ _ (by rw [UInt64.le_iff_toNat_le, hlen]; exact hpos), hlen]
  rw [need, Bool.and_eq_true, Bool.and_eq_true, decide_eq_true_eq, decide_eq_true_eq,
    UInt64.le_iff_toNat_le, UInt64.le_iff_toNat_le, hdiff, UInt64.toNat_add]
  constructor
  · rintro ⟨⟨hok, hle⟩, -⟩
    exact ⟨hok, by omega⟩
  · -- nor does the sum that the source compares with the position
    rintro ⟨hok, hle⟩
    rw [Nat.mod_eq_of_lt (by omega)]
    exact ⟨⟨hok, by omega⟩, by omega⟩

/-- Bytes that are there are read. -/
theorem peek_eq {data : List UInt8} (hsize : data.length < 2 ^ 64) {n : ℕ} {pos : UInt64}
    (h : pos.toNat + n ≤ data.length) :
    peek data pos n = some ((data.drop pos.toNat).take n) := by
  induction n generalizing pos with
  | zero => rw [peek, List.take_zero]
  | succ n ih =>
    have hlt : pos.toNat < data.length := by omega
    have hnext : (pos + 1).toNat = pos.toNat + 1 := by
      rw [UInt64.toNat_add, UInt64.toNat_one, Nat.mod_eq_of_lt (by omega)]
    rw [peek, List.getElem?_eq_getElem hlt]
    dsimp only
    rw [ih (by omega), hnext, Option.map_some, List.drop_eq_getElem_cons hlt, List.take_succ_cons]

end Cursor

/-! ### Programs on a cursor -/

/-- On every cursor inside its buffer `ex` has no outcome but what `rd` returns on the bytes
that are left, and it stays inside. -/
def Inbounds (ex : Cursor → Option (A × Cursor)) (rd : Reader → A × Reader) : Prop :=
  ∀ c : Cursor, c.Inside → ∃ c' : Cursor, ex c = some ((rd c.reader).1, c') ∧
    c'.reader = (rd c.reader).2 ∧ c'.Inside

namespace Inbounds

theorem bind {ex : Cursor → Option (A × Cursor)} {rd : Reader → A × Reader}
    {f : A → Cursor → Option (B × Cursor)} {g : A → Reader → B × Reader} (h : Inbounds ex rd)
    (hf : ∀ a, Inbounds (f a) (g a)) :
    Inbounds (fun c => (ex c).bind fun v => f v.1 v.2) fun r => g (rd r).1 (rd r).2 := by
  intro c hc
  obtain ⟨c₁, hex, hreader, hc₁⟩ := h c hc
  obtain ⟨c₂, hf₂, hreader₂, hc₂⟩ := hf (rd c.reader).1 c₁ hc₁
  rw [hreader] at hf₂ hreader₂
  refine ⟨c₂, ?_, hreader₂, hc₂⟩
  dsimp only
  rw [hex, Option.bind_some, hf₂]

theorem map {ex : Cursor → Option (A × Cursor)} {rd : Reader → A × Reader} (f : A → B)
    (h : Inbounds ex rd) :
    Inbounds (fun c => (ex c).map fun v => (f v.1, v.2)) (Reader.map f rd) := by
  intro c hc
  obtain ⟨c', hex, hreader, hc'⟩ := h c hc
  refine ⟨c', ?_, hreader, hc'⟩
  dsimp only
  rw [hex]
  rfl

theorem take (n : UInt64) : Inbounds (Cursor.take n) (Reader.take n.toNat) := by
  intro c hc
  rw [Cursor.take]
  by_cases hneed : c.need n = true
  · obtain ⟨hok, hle⟩ := (Cursor.need_iff hc).mp hneed
    have hrest : n.toNat ≤ (c.data.drop c.pos.toNat).length := by
      rw [List.length_drop]
      omega
    have hpos : (c.pos + n).toNat = c.pos.toNat + n.toNat := by
      have := hc.size_lt
      rw [UInt64.toNat_add, Nat.mod_eq_of_lt (by omega)]
    rw [if_pos hneed, Cursor.peek_eq hc.size_lt hle, Cursor.reader, hok, Reader.take_of_le hrest]
    refine ⟨⟨c.data, c.pos + n, true⟩, rfl, ?_, ⟨?_, hc.size_lt⟩⟩
    · rw [Cursor.reader, hpos, List.drop_drop]
    · dsimp only
      rw [hpos]
      exact hle
  · rw [if_neg hneed]
    have hread : c.reader.take n.toNat = ([], { c.reader with ok := false }) := by
      rw [Reader.take]
      by_cases hok : c.reader.ok = true
      · -- the bytes are not there
        have hshort : c.reader.rest.length < n.toNat := by
          have hle : ¬ c.pos.toNat + n.toNat ≤ c.data.length := fun hle =>
            hneed ((Cursor.need_iff hc).mpr ⟨hok, hle⟩)
          have := hc.pos_le
          rw [Cursor.reader, List.length_drop]
          omega
        rw [if_pos hok, splitPrefix_eq_none hshort]
      · rw [if_neg hok, ← Bool.eq_false_of_not_eq_true hok]
    rw [hread]
    exact ⟨{ c with ok := false }, rfl, rfl, hc.pos_le, hc.size_lt⟩

theorem str (lim : Limits) : Inbounds (Cursor.str lim) (Reader.str lim) := by
  refine bind (f := fun b c => if !c.ok || decide (lim.maxLen < UInt32.ofNat (ofLE b)) then
    some ([], { c with ok := false }) else c.take (UInt32.ofNat (ofLE b)).toUInt64)
    (g := fun b r => if !r.ok || decide (lim.maxLen < UInt32.ofNat (ofLE b)) then
      ([], { r with ok := false }) else r.take (UInt32.ofNat (ofLE b)).toNat) (take 4) ?_
  intro b c hc
  have hok : c.reader.ok = c.ok := rfl
  dsimp only
  rw [hok]
  -- a string that is too long puts the flag down, and the position stays
  split
  · exact ⟨{ c with ok := false }, rfl, rfl, hc.pos_le, hc.size_lt⟩
  · exact take (UInt32.ofNat (ofLE b)).toUInt64 c hc

end Inbounds

/-- Read a value at the cursor. -/
def Prim.exec : (p : Prim) → Cursor → Option (p.Val × Cursor)
  | u8 => fun c => (c.take 1).map fun b => (UInt8.ofNat (ofLE b.1), b.2)
  | u32 => fun c => (c.take 4).map fun b => (UInt32.ofNat (ofLE b.1), b.2)
  | u64 => fun c => (c.take 8).map fun b => (UInt64.ofNat (ofLE b.1), b.2)
  | str lim => Cursor.str lim

theorem Prim.inbounds (p : Prim) : Inbounds p.exec p.read := by
  cases p with
  | u8 => exact (Inbounds.take 1).map fun b => UInt8.ofNat (ofLE b)
  | u32 => exact (Inbounds.take 4).map fun b => UInt32.ofNat (ofLE b)
  | u64 => exact (Inbounds.take 8).map fun b => UInt64.ofNat (ofLE b)
  | str lim => exact Inbounds.str lim

/-- Run a program on a cursor; `none` is a subscript outside of the buffer. -/
def Program.exec : Program A → Cursor → Option (A × Cursor)
  | ret a, c => some (a, c)
  | read p next, c => (p.exec c).bind fun v => (next v.1).exec v.2
  | test next, c => (next c.ok).exec c

/-- **No program leaves the buffer**, and what it does there is what it does on the bytes that
are left. -/
theorem Program.exec_eq_run (p : Program A) : Inbounds p.exec p.run := by
  induction p with
  | ret a => exact fun c hc => ⟨c, rfl, rfl, hc⟩
  | read p next ih => exact p.inbounds.bind ih
  | test next ih => exact fun c hc => ih c.ok c hc

end Wire
