import DisaggregationFabric.Codec.Wellformed

/-!
# Replacing the file

`SaveImpl` writes the encoding to a temporary file, checks that stream, and then copies the
temporary file over the final path: a truncating open, a write and a close that are not
checked. `Scenario` says what the file system does with each of these operations and after
how many of them the process stops; `save` is what is left behind.

Up to the truncating open (on Windows: up to the removal before it) the old contents are in
place, and once the copy is complete the new ones are. In between the final path holds a
beginning of the encoding. `LoadImpl` refuses it, unless its tables are complete and the last
eight bytes that are there happen to be the checksum of those before (`loadImpl_take_iff`). So
it is known in which scenarios saving is atomic (`recoverable_iff`).
-/

namespace DFabric

/-! ### A beginning of a file -/

section Beginnings

open Wire Hash

variable {D : Type} [Double D] [DoubleBits D]

/-- The parse of the body ends within the first `n` bytes. -/
def ParsedWithin (file : List UInt8) (s : DurableState D) (n : ℕ) : Prop :=
  ∃ r, parseBody ⟨file.drop 8, 8, true⟩ = .ok (s, r) ∧ r.pos ≤ n

/-- Nothing is missing behind byte `n`; or the body ends before it, and the last eight bytes that
are there happen to be the checksum of those before. -/
def CutUnseen (file : List UInt8) (s : DurableState D) (n : ℕ) : Prop :=
  file.length ≤ n ∨ ParsedWithin file s n ∧ Sealed trailer (file.take n)

/-- **When a beginning of a file is loaded**, and what it is loaded as. -/
theorem loadImpl_take_iff {file : List UInt8} {s s' : DurableState D}
    (hload : loadImpl file = .ok s) (n : ℕ) :
    loadImpl (file.take n) = .ok s' ↔ s' = s ∧ CutUnseen file s n := by
  unfold CutUnseen
  rcases le_or_gt file.length n with hlen | hlt
  · rw [List.take_of_length_le hlen, hload, Except.ok.injEq]
    simp only [hlen, true_or, and_true, eq_comm]
  obtain ⟨hheader, -, -, hbody⟩ := loadImpl_iff.mp hload
  obtain ⟨r, hr⟩ := loadBody_eq_ok.mp hbody
  have hlength : (file.take n).length = n := List.length_take_of_le hlt.le
  -- the two texts agree up to byte `n`
  have hcut : ∀ k ≤ n, ((file.take n).drop 8).take (k - 8) = (file.drop 8).take (k - 8) := by
    intro k hk
    rw [List.drop_take, List.take_take, min_eq_left (Nat.sub_le_sub_right hk 8)]
  rw [or_iff_right (not_le.mpr hlt)]
  constructor
  · intro hprefix
    obtain ⟨-, hseal, -, hbody'⟩ := loadImpl_iff.mp hprefix
    obtain ⟨r', hr'⟩ := loadBody_eq_ok.mp hbody'
    obtain ⟨-, hflag, htotal, -⟩ := parsed_parseBody hr'
    dsimp only at htotal
    rw [List.length_drop, hlength] at htotal
    have hle := hlength ▸ le_length_of_sealed hseal
    obtain ⟨r'', hrun, hpos⟩ := exactOk_parseBody.run_of_take hr' hflag
      (hcut r'.pos (by omega)).symm
    rw [hr] at hrun
    cases hrun
    exact ⟨rfl, ⟨r, hr, by omega⟩, hseal⟩
  · rintro ⟨rfl, ⟨r', hr', hpos⟩, hseal⟩
    obtain ⟨-, hflag, -, -⟩ := parsed_parseBody hr'
    obtain ⟨r'', hrun, -⟩ := exactOk_parseBody.run_of_take hr' hflag (hcut r'.pos hpos)
    have hle := hlength ▸ le_length_of_sealed hseal
    refine loadImpl_iff.mpr ⟨?_, hseal, by omega, loadBody_eq_ok.mpr ⟨r'', hrun⟩⟩
    rw [Headed, List.take_take, List.drop_take, List.take_take, min_eq_left (by omega),
      min_eq_left (by omega)]
    exact hheader

end Beginnings

/-! ### The operations -/

/-- The two files `SaveImpl` works on; `none` is a file that does not exist. -/
structure Files where
  tmp : Option (List UInt8)
  final : Option (List UInt8)

/-- What becomes of the operations of one call. The number of bytes that have reached a file
is given after the write and after the close, which flushes the stream. -/
structure Scenario where
  windows : Bool
  openTmp : Bool
  wroteTmp : ℕ
  flushedTmp : ℕ
  closeTmp : Bool
  removeFinal : Bool
  openRead : Bool
  openFinal : Bool
  wroteFinal : ℕ
  flushedFinal : ℕ
  removeTmp : Bool
  /-- The process stops after so many operations. -/
  stop : ℕ

/-- The next operation, or what was returned. -/
inductive SaveStage where
  | openTmp
  | writeTmp
  | closeTmp
  | removeFinal
  | openFinal
  | writeFinal
  | closeFinal
  | removeTmp
  | returned (ok : Bool)
deriving DecidableEq

/-- A call of `SaveImpl` in progress. -/
structure Saving where
  files : Files
  stage : SaveStage

namespace Scenario

variable (sc : Scenario)

/-- The stream of the temporary file is still good after the close: every byte was taken. -/
def tmpGood (bytes : List UInt8) : Bool :=
  decide (bytes.length ≤ max sc.wroteTmp sc.flushedTmp) && sc.closeTmp

/-- One operation of `SaveImpl` for the given encoding. -/
def step (bytes : List UInt8) (σ : Saving) : Saving :=
  match σ.stage with
  | .openTmp =>
    if sc.openTmp then ⟨{ σ.files with tmp := some [] }, .writeTmp⟩
    else ⟨σ.files, .returned false⟩
  | .writeTmp => ⟨{ σ.files with tmp := some (bytes.take sc.wroteTmp) }, .closeTmp⟩
  | .closeTmp =>
    ⟨{ σ.files with tmp := some (bytes.take (max sc.wroteTmp sc.flushedTmp)) },
      if sc.tmpGood bytes then .removeFinal else .returned false⟩
  | .removeFinal =>
    -- only there under `_WIN32`, and its result is not looked at
    ⟨if sc.windows && sc.removeFinal then { σ.files with final := none } else σ.files, .openFinal⟩
  | .openFinal =>
    if !sc.openFinal then ⟨σ.files, .returned false⟩
    else
      -- without the input stream its size is minus one, and the allocation throws
      ⟨{ σ.files with final := some [] }, if sc.openRead then .writeFinal else .returned false⟩
  | .writeFinal =>
    ⟨{ σ.files with final := some ((σ.files.tmp.getD []).take sc.wroteFinal) }, .closeFinal⟩
  | .closeFinal =>
    -- this stream is not checked
    ⟨{ σ.files with
        final := some ((σ.files.tmp.getD []).take (max sc.wroteFinal sc.flushedFinal)) },
      .removeTmp⟩
  | .removeTmp =>
    ⟨if sc.windows && sc.removeTmp then { σ.files with tmp := none } else σ.files, .returned true⟩
  | .returned ok => ⟨σ.files, .returned ok⟩

variable {D : Type} [DoubleBits D]

/-- `SaveImpl` on the files, up to where the process stops. -/
def save (files : Files) (s : DurableState D) : Saving :=
  match saveImpl s with
  -- the writer has thrown before any file was touched
  | .error _ => ⟨files, .returned false⟩
  | .ok bytes => (sc.step bytes)^[sc.stop] ⟨files, .openTmp⟩

/-! ### What is left behind -/

variable {sc} {bytes : List UInt8}

theorem step_writeTmp (files : Files) : sc.step bytes ⟨files, .writeTmp⟩ =
    ⟨{ files with tmp := some (bytes.take sc.wroteTmp) }, .closeTmp⟩ := rfl

theorem step_closeTmp (files : Files) : sc.step bytes ⟨files, .closeTmp⟩ =
    ⟨{ files with tmp := some (bytes.take (max sc.wroteTmp sc.flushedTmp)) },
      if sc.tmpGood bytes then .removeFinal else .returned false⟩ := rfl

theorem step_removeFinal (files : Files) : sc.step bytes ⟨files, .removeFinal⟩ =
    ⟨⟨files.tmp, if sc.windows && sc.removeFinal then none else files.final⟩, .openFinal⟩ := by
  unfold step
  dsimp only
  split <;> rfl

theorem step_removeTmp (files : Files) : sc.step bytes ⟨files, .removeTmp⟩ =
    ⟨⟨if sc.windows && sc.removeTmp then none else files.tmp, files.final⟩, .returned true⟩ := by
  unfold step
  dsimp only
  split <;> rfl

theorem iterate_returned (files : Files) (ok : Bool) (n : ℕ) :
    (sc.step bytes)^[n] ⟨files, .returned ok⟩ = ⟨files, .returned ok⟩ := by
  induction n with
  | zero => rfl
  | succ n ih => exact ih

/-- A temporary file that cannot be opened or completed leaves the final path alone. -/
theorem iterate_of_tmp_fails (h : sc.openTmp = false ∨ sc.tmpGood bytes = false) (files : Files)
    (n : ℕ) :
    ((sc.step bytes)^[n] ⟨files, .openTmp⟩).files.final = files.final ∧
      ((sc.step bytes)^[n] ⟨files, .openTmp⟩).stage ≠ .returned true := by
  rcases n with _ | n
  · exact ⟨rfl, SaveStage.noConfusion⟩
  rw [Function.iterate_succ_apply]
  by_cases hopen : sc.openTmp = true
  swap
  · have hstep : sc.step bytes ⟨files, .openTmp⟩ = ⟨files, .returned false⟩ := if_neg hopen
    rw [hstep, iterate_returned]
    exact ⟨rfl, by simp⟩
  have hstep : sc.step bytes ⟨files, .openTmp⟩ = ⟨{ files with tmp := some [] }, .writeTmp⟩ :=
    if_pos hopen
  rw [hstep]
  rcases n with _ | _ | n
  · exact ⟨rfl, SaveStage.noConfusion⟩
  · exact ⟨rfl, SaveStage.noConfusion⟩
  -- the close finds the stream bad
  have hbad : sc.tmpGood bytes = false := h.resolve_left (by rw [hopen]; decide)
  rw [Function.iterate_succ_apply, Function.iterate_succ_apply, step_writeTmp, step_closeTmp, hbad,
    if_neg Bool.false_ne_true, iterate_returned]
  exact ⟨rfl, by simp⟩

/-- A temporary file that is completed leaves the final path alone too, up to the removal. -/
theorem iterate_of_tmp_completes (hopen : sc.openTmp = true) (hgood : sc.tmpGood bytes = true)
    (files : Files) :
    (sc.step bytes)^[3] ⟨files, .openTmp⟩ = ⟨⟨some bytes, files.final⟩, .removeFinal⟩ ∧
      ∀ n < 3, ((sc.step bytes)^[n] ⟨files, .openTmp⟩).files.final = files.final ∧
        ((sc.step bytes)^[n] ⟨files, .openTmp⟩).stage ≠ .returned true := by
  have hstep : sc.step bytes ⟨files, .openTmp⟩ = ⟨{ files with tmp := some [] }, .writeTmp⟩ :=
    if_pos hopen
  -- a stream that is good at the close has taken every byte
  have hall : bytes.take (max sc.wroteTmp sc.flushedTmp) = bytes := by
    refine List.take_of_length_le ?_
    rw [tmpGood, Bool.and_eq_true, decide_eq_true_iff] at hgood
    exact hgood.1
  refine ⟨?_, ?_⟩
  · rw [Function.iterate_succ_apply, hstep, Function.iterate_succ_apply, step_writeTmp,
      Function.iterate_succ_apply, step_closeTmp, hgood, if_pos rfl, hall]
    rfl
  · -- none of the three operations touches the final path
    intro n hn
    rcases n with _ | n
    · exact ⟨rfl, SaveStage.noConfusion⟩
    rw [Function.iterate_succ_apply, hstep]
    rcases n with _ | _ | n
    · exact ⟨rfl, SaveStage.noConfusion⟩
    · exact ⟨rfl, SaveStage.noConfusion⟩
    · omega

/-- The copy, from the truncating open on. -/
theorem iterate_of_opened (hopen : sc.openFinal = true) (hread : sc.openRead = true)
    (final : Option (List UInt8)) :
    (sc.step bytes)^[1] ⟨⟨some bytes, final⟩, .openFinal⟩ =
        ⟨⟨some bytes, some []⟩, .writeFinal⟩ ∧
      (sc.step bytes)^[2] ⟨⟨some bytes, final⟩, .openFinal⟩ =
        ⟨⟨some bytes, some (bytes.take sc.wroteFinal)⟩, .closeFinal⟩ ∧
      (sc.step bytes)^[3] ⟨⟨some bytes, final⟩, .openFinal⟩ =
        ⟨⟨some bytes, some (bytes.take (max sc.wroteFinal sc.flushedFinal))⟩, .removeTmp⟩ ∧
      ∀ n, ∃ tmp, (sc.step bytes)^[n + 4] ⟨⟨some bytes, final⟩, .openFinal⟩ =
        ⟨⟨tmp, some (bytes.take (max sc.wroteFinal sc.flushedFinal))⟩, .returned true⟩ := by
  have hone : sc.step bytes ⟨⟨some bytes, final⟩, .openFinal⟩ =
      ⟨⟨some bytes, some []⟩, .writeFinal⟩ := by
    simp [step, hopen, hread]
  have hthree : (sc.step bytes)^[3] ⟨⟨some bytes, final⟩, .openFinal⟩ =
      ⟨⟨some bytes, some (bytes.take (max sc.wroteFinal sc.flushedFinal))⟩, .removeTmp⟩ := by
    rw [Function.iterate_succ_apply, hone]
    rfl
  refine ⟨hone, ?_, hthree, fun n => ?_⟩
  · rw [Function.iterate_succ_apply, hone]
    rfl
  · -- the removal of the temporary file, then nothing
    rw [show n + 4 = (n + 1) + 3 from rfl, Function.iterate_add_apply, hthree,
      Function.iterate_succ_apply, step_removeTmp]
    exact ⟨_, iterate_returned _ true n⟩

/-! ### When the replacement is atomic -/

variable [Double D]

/-- `LoadImpl` on what a path holds. -/
def loadPath (file : Option (List UInt8)) : Except Str (DurableState D) :=
  match file with
  | none => .error (str "cannot open path for read")
  | some file => loadImpl file

/-- The final path loads to the old state or to the new one, and `true` has been returned
only if it holds the whole encoding. -/
def Recoverable (bytes : List UInt8) (s₀ s₁ : DurableState D) (σ : Saving) : Prop :=
  (loadPath σ.files.final = .ok s₀ ∨ loadPath σ.files.final = .ok s₁) ∧
    (σ.stage = .returned true → σ.files.final = some bytes)

/-- **When saving is atomic.** -/
inductive Safe (sc : Scenario) (bytes : List UInt8) (s₁ : DurableState D) : Prop
  /-- The temporary file cannot be opened, or not completed. -/
  | tmpFails (h : sc.openTmp = false ∨ sc.tmpGood bytes = false)
  /-- The process stops while only the temporary file has been touched. -/
  | beforeRemoval (h : sc.stop ≤ 3)
  /-- The final path was not removed, and is not opened. -/
  | notOpened (hkept : (sc.windows && sc.removeFinal) = false)
      (h : sc.stop = 4 ∨ sc.openFinal = false)
  /-- The process stops during the copy, when it is complete or the checksum of the beginning
  that has reached the file coincides. -/
  | duringCopy (hopen : sc.openFinal = true) (hread : sc.openRead = true) (n : ℕ)
      (hn : sc.stop = 6 ∧ n = sc.wroteFinal ∨
        sc.stop = 7 ∧ n = max sc.wroteFinal sc.flushedFinal)
      (h : CutUnseen bytes s₁ n)
  /-- The copy is complete. -/
  | complete (hopen : sc.openFinal = true) (hread : sc.openRead = true) (hstop : 8 ≤ sc.stop)
      (h : bytes.length ≤ max sc.wroteFinal sc.flushedFinal)

/-- What is left when the final path cannot be loaded is not recoverable. -/
theorem not_recoverable {s₀ s₁ : DurableState D} {σ : Saving}
    (h : σ.files.final = none ∨ σ.files.final = some []) : ¬ Recoverable bytes s₀ s₁ σ := by
  rintro ⟨hload, -⟩
  rcases h with h | h <;> rw [h] at hload <;> rcases hload with hload | hload <;> cases hload

/-- What the copy has put into the final path, `k` operations after its truncating open, is
loaded, and it is all of the encoding once the copy is over. -/
def CopyLoads (sc : Scenario) (bytes : List UInt8) (s₁ : DurableState D) (k : ℕ) : Prop :=
  sc.openRead = true ∧
    (k = 1 ∧ CutUnseen bytes s₁ sc.wroteFinal ∨
      k = 2 ∧ CutUnseen bytes s₁ (max sc.wroteFinal sc.flushedFinal) ∨
      3 ≤ k ∧ bytes.length ≤ max sc.wroteFinal sc.flushedFinal)

/-- From the truncating open on, with the old contents or nothing on the final path. -/
theorem recoverable_iterate_iff {s₀ s₁ : DurableState D} (hnew : loadImpl bytes = .ok s₁)
    (hopen : sc.openFinal = true) (final : Option (List UInt8)) (k : ℕ) :
    Recoverable bytes s₀ s₁ ((sc.step bytes)^[k + 1] ⟨⟨some bytes, final⟩, .openFinal⟩) ↔
      sc.CopyLoads bytes s₁ k := by
  unfold CopyLoads
  by_cases hread : sc.openRead = true
  swap
  · -- the allocation throws, and the truncated file stays
    have hthrow : sc.step bytes ⟨⟨some bytes, final⟩, .openFinal⟩ =
        ⟨⟨some bytes, some []⟩, .returned false⟩ := by
      simp [step, hopen, hread]
    rw [Function.iterate_succ_apply, hthrow, iterate_returned]
    exact iff_of_false (not_recoverable (Or.inr rfl)) fun h => hread h.1
  obtain ⟨hone, htwo, hthree, hlater⟩ := iterate_of_opened hopen hread final
  -- a beginning of the new file is loaded as the new state or not at all
  have hcopied : ∀ n, (loadImpl (bytes.take n) = .ok s₀ ∨ loadImpl (bytes.take n) = .ok s₁) ↔
      CutUnseen bytes s₁ n := by
    intro n
    rw [loadImpl_take_iff hnew, loadImpl_take_iff hnew]
    constructor
    · rintro (⟨-, h⟩ | ⟨-, h⟩) <;> exact h
    · exact fun h => Or.inr ⟨rfl, h⟩
  rw [and_iff_right hread]
  rcases k with _ | _ | _ | k
  · rw [hone]
    exact iff_of_false (not_recoverable (Or.inr rfl)) (by omega)
  · rw [htwo]
    simp [Recoverable, loadPath, hcopied]
  · rw [hthree]
    simp [Recoverable, loadPath, hcopied]
  · -- `true` has been returned: the file has to be complete
    obtain ⟨tmp, hk⟩ := hlater k
    rw [hk]
    refine ⟨fun h => Or.inr (Or.inr ⟨by omega, ?_⟩), ?_⟩
    · have hfinal : some (bytes.take (max sc.wroteFinal sc.flushedFinal)) = some bytes := h.2 rfl
      have hlength := congrArg List.length (Option.some.inj hfinal)
      rw [List.length_take] at hlength
      omega
    · rintro (⟨hk, -⟩ | ⟨hk, -⟩ | ⟨-, hlen⟩)
      · omega
      · omega
      · rw [List.take_of_length_le hlen]
        exact ⟨Or.inr hnew, fun _ => rfl⟩

/-- A final path that was not touched has the old state. -/
theorem recoverable_of_untouched {s₀ s₁ : DurableState D} {old : List UInt8} {σ : Saving}
    (hload : loadImpl old = .ok s₀) (hfinal : σ.files.final = some old)
    (hstage : σ.stage ≠ .returned true) : Recoverable bytes s₀ s₁ σ := by
  refine ⟨Or.inl ?_, fun h => absurd h hstage⟩
  rw [hfinal]
  exact hload

section Safe

variable {s₁ : DurableState D} (htmp : ¬ (sc.openTmp = false ∨ sc.tmpGood bytes = false))
  (hstop : ¬ sc.stop ≤ 3)

include htmp hstop

/-- Until the final path is opened, everything hangs on the removal. -/
theorem safe_iff_of_not_opened (hclosed : sc.stop = 4 ∨ sc.openFinal = false) :
    sc.Safe bytes s₁ ↔ (sc.windows && sc.removeFinal) = false := by
  -- an opened file is past the removal
  have hunopened : sc.openFinal = true → sc.stop = 4 := fun hopen =>
    hclosed.resolve_right (by rw [hopen]; decide)
  constructor
  · rintro (h | h | ⟨hkept, -⟩ | ⟨hopen, -, n, hn, -⟩ | ⟨hopen, -, h, -⟩)
    · exact absurd h htmp
    · exact absurd h hstop
    · exact hkept
    · have := hunopened hopen
      omega
    · have := hunopened hopen
      omega
  · intro hkept
    exact .notOpened hkept hclosed

/-- Once it is opened, everything hangs on the copy. -/
theorem safe_iff_of_opened (hopen : sc.openFinal = true) {k : ℕ} (hk : sc.stop = k + 5) :
    sc.Safe bytes s₁ ↔ sc.CopyLoads bytes s₁ k := by
  constructor
  · rintro (h | h | ⟨-, h | h⟩ | ⟨-, hread, n, ⟨hn, rfl⟩ | ⟨hn, rfl⟩, h⟩ | ⟨-, hread, hn, h⟩)
    · exact absurd h htmp
    · exact absurd h hstop
    · -- the final path was opened, so the last four cases only are left
      omega
    · rw [h] at hopen
      cases hopen
    · exact ⟨hread, Or.inl ⟨by omega, h⟩⟩
    · exact ⟨hread, Or.inr (Or.inl ⟨by omega, h⟩)⟩
    · exact ⟨hread, Or.inr (Or.inr ⟨by omega, h⟩)⟩
  · rintro ⟨hread, ⟨hk', h⟩ | ⟨hk', h⟩ | ⟨hk', h⟩⟩
    · exact .duringCopy hopen hread _ (Or.inl ⟨by omega, rfl⟩) h
    · exact .duringCopy hopen hread _ (Or.inr ⟨by omega, rfl⟩) h
    · exact .complete hopen hread (by omega) h

end Safe

/-- **Saving is atomic in these scenarios and in no other.** -/
theorem recoverable_iff (sc : Scenario) {s s₀ s₁ : DurableState D} {files : Files}
    {old bytes : List UInt8} (hold : files.final = some old) (hload : loadImpl old = .ok s₀)
    (hsave : saveImpl s = .ok bytes) (hnew : loadImpl bytes = .ok s₁) :
    Recoverable bytes s₀ s₁ (sc.save files s) ↔ sc.Safe bytes s₁ := by
  have hrun : sc.save files s = (sc.step bytes)^[sc.stop] ⟨files, .openTmp⟩ := by
    unfold save
    rw [hsave]
  have huntouched : ∀ σ : Saving, σ.files.final = files.final ∧ σ.stage ≠ .returned true →
      Recoverable bytes s₀ s₁ σ := fun σ h => recoverable_of_untouched hload (h.1.trans hold) h.2
  rw [hrun]
  -- the final file is not touched before the temporary one is complete
  by_cases htmp : sc.openTmp = false ∨ sc.tmpGood bytes = false
  · exact iff_of_true (huntouched _ (iterate_of_tmp_fails htmp files sc.stop)) (.tmpFails htmp)
  have htmp' := htmp
  rw [not_or, Bool.not_eq_false, Bool.not_eq_false] at htmp'
  obtain ⟨hthree, hbefore⟩ := iterate_of_tmp_completes htmp'.1 htmp'.2 files
  by_cases hstop : sc.stop ≤ 3
  · refine iff_of_true ?_ (.beforeRemoval hstop)
    rcases hstop.lt_or_eq with hlt | heq
    · exact huntouched _ (hbefore _ hlt)
    · rw [heq, hthree]
      exact huntouched _ ⟨rfl, SaveStage.noConfusion⟩
  -- from here on the final file may be gone
  obtain ⟨k, hk⟩ : ∃ k, sc.stop = (k + 1) + 3 := ⟨sc.stop - 4, by omega⟩
  rw [hk, Function.iterate_add_apply, hthree, Function.iterate_succ_apply, step_removeFinal]
  have hclosed : ∀ stage ≠ SaveStage.returned true, sc.stop = 4 ∨ sc.openFinal = false →
      (Recoverable bytes s₀ s₁ ⟨⟨some bytes,
        if sc.windows && sc.removeFinal then none else files.final⟩, stage⟩ ↔
        sc.Safe bytes s₁) := by
    intro stage hstage hclosed
    rw [safe_iff_of_not_opened htmp hstop hclosed]
    cases hremoved : sc.windows && sc.removeFinal with
    | true => exact iff_of_false (not_recoverable (Or.inl rfl)) Bool.true_eq_false.mp
    | false => exact iff_of_true (huntouched _ ⟨rfl, hstage⟩) rfl
  rcases k with _ | k
  · exact hclosed .openFinal SaveStage.noConfusion (Or.inl hk)
  -- once it is open again its old bytes are lost, and what was copied has to load
  by_cases hopen : sc.openFinal = true
  · rw [recoverable_iterate_iff hnew hopen, safe_iff_of_opened htmp hstop hopen hk]
  · rw [Bool.not_eq_true] at hopen
    have hreturn : ∀ f : Files, sc.step bytes ⟨f, .openFinal⟩ = ⟨f, .returned false⟩ := by
      intro f
      simp [step, hopen]
    rw [Function.iterate_succ_apply, hreturn, iterate_returned]
    exact hclosed (.returned false) (by simp) (Or.inr hopen)

/-- Nothing fails, every write takes `n` bytes, and the process stops after `stop`
operations. -/
def faultless (n stop : ℕ) : Scenario :=
  ⟨false, true, n, n, true, true, true, true, n, n, true, stop⟩

/-- The sample state in an earlier epoch. -/
def olderDurable : DurableState Binary64 := { sampleDurable with epoch := ⟨2⟩ }

/-- Both sample states are encoded, and load again. -/
theorem exists_sample_files :
    ∃ old bytes, saveImpl olderDurable = .ok old ∧ loadImpl old = .ok olderDurable.persisted ∧
      saveImpl sampleDurable = .ok bytes ∧ loadImpl bytes = .ok sampleDurable.persisted := by
  have holder : olderDurable.Storable := by decide +kernel
  have hnewer : sampleDurable.Storable := by decide +kernel
  have hold := saveImpl_eq holder (by decide +kernel)
  have hnew := saveImpl_eq hnewer (by decide +kernel)
  exact ⟨_, _, hold, loadImpl_saveImpl holder hold, hnew, loadImpl_saveImpl hnewer hnew⟩

/-- A save that runs to its end leaves the new state. -/
theorem sample_recoverable :
    ∃ old bytes, saveImpl olderDurable = .ok old ∧ saveImpl sampleDurable = .ok bytes ∧
      Recoverable bytes olderDurable.persisted sampleDurable.persisted
        ((faultless bytes.length 8).save ⟨none, some old⟩ sampleDurable) := by
  obtain ⟨old, bytes, hold, hload, hsave, hnew⟩ := exists_sample_files
  refine ⟨old, bytes, hold, hsave, ?_⟩
  exact (recoverable_iff (faultless bytes.length 8) rfl hload hsave hnew).mpr
    (.complete rfl rfl le_rfl (le_max_left _ _))

/-- **A save that stops after the truncating open leaves an empty file.** The older state was
on the path, no operation fails, and neither state can be loaded any more. -/
theorem truncated_not_recoverable :
    ¬ ∀ (sc : Scenario) (s s₀ s₁ : DurableState Binary64) (files : Files) (old bytes : List UInt8),
      files.final = some old → loadImpl old = .ok s₀ → saveImpl s = .ok bytes →
      loadImpl bytes = .ok s₁ → Recoverable bytes s₀ s₁ (sc.save files s) := by
  intro h
  obtain ⟨old, bytes, -, hload, hsave, hnew⟩ := exists_sample_files
  refine not_recoverable (Or.inr ?_)
    (h (faultless bytes.length 5) sampleDurable _ _ ⟨none, some old⟩ old bytes rfl hload hsave hnew)
  -- the fifth operation is the truncating open
  have hgood : (faultless bytes.length 5).tmpGood bytes = true := by
    simp [tmpGood, faultless]
  have hsteps : (faultless bytes.length 5).save ⟨none, some old⟩ sampleDurable =
      ((faultless bytes.length 5).step bytes)^[2]
        (((faultless bytes.length 5).step bytes)^[3] ⟨⟨none, some old⟩, .openTmp⟩) := by
    unfold save
    rw [hsave]
    rfl
  rw [hsteps, (iterate_of_tmp_completes rfl hgood _).1]
  rfl

end Scenario

end DFabric
