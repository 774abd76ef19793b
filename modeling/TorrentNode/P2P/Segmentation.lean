import TorrentNode.P2P.Segments

/-!
# Segments in `size_t` (`P2P_Impl::makeSegments`, `requestImpl`, `requests`)

The number of segments is rounded up by the caller and their length is rounded down by
the callee, both in `size_t`. With at least one connection and no overflow in the sum of
the two sizes this never divides by zero, never wraps and leaves no segment empty.
-/

namespace TorrentNode

namespace P2P_Impl

/-- `a / b`; the program does not survive a division by zero. -/
def divide (a b : UInt64) : Except Err UInt64 :=
  if b = 0 then .error (.std "division by zero") else .ok (a / b)

/-- `countSegments` of `requestImpl`. -/
def countSegments (responseSize minResponseSize maxServers : UInt64) : Except Err UInt64 :=
  let isMultitplyRequests := minResponseSize = 1
  if isMultitplyRequests then .ok responseSize
  else do
    let needed ← divide (responseSize + minResponseSize - 1) minResponseSize
    pure (min needed maxServers)

/-- The loop of `makeSegments` with so many rounds to go: its segments and the last `prevByte`. -/
def segmentsLoop (step size : UInt64) : Nat → UInt64 → UInt64 → List Segment × UInt64
  | 0, _, prevByte => ([], prevByte)
  | n + 1, i, prevByte =>
    let nextByte := min (prevByte + step) size
    let rest := segmentsLoop step size n (i + 1) nextByte
    ({ fromByte := prevByte.toNat, toByte := nextByte.toNat, posInArray := i.toNat } :: rest.1,
      rest.2)

/-- `makeSegments` in the arithmetic of `size_t`, with the loop and the last segment behind it. -/
def makeSegments (countSegments size minSize : UInt64) : Except Err (List Segment) := do
  let share ← divide size countSegments
  let step := min size (max share minSize)
  check (step != 0) "step == 0"
  let answer := segmentsLoop step size (countSegments - 1).toNat 0 0
  pure (answer.1 ++
    [{ fromByte := answer.2.toNat, toByte := size.toNat, posInArray := (countSegments - 1).toNat }])

/-- The lambda `makeQsAndPortImpl` of `requests`. -/
def makeQsAndPortImpl {α : Type} (makeQsAndPost : Nat → Except Err α) (fromByte toByte : Nat) :
    Except Err α := do
  check (toByte == fromByte + 1) "Incorrect call makeQsAndPortFunc"
  makeQsAndPost fromByte

/-! ## Without overflow -/

theorem toNat_min (a b : UInt64) : (min a b).toNat = min a.toNat b.toNat := by
  rw [min_def, min_def]
  split
  · rename_i hle
    rw [if_pos (UInt64.le_iff_toNat_le.mp hle)]
  · rename_i hle
    rw [if_neg (fun h => hle (UInt64.le_iff_toNat_le.mpr h))]

theorem toNat_max (a b : UInt64) : (max a b).toNat = max a.toNat b.toNat := by
  rw [max_def, max_def]
  split
  · rename_i hle
    rw [if_pos (UInt64.le_iff_toNat_le.mp hle)]
  · rename_i hle
    rw [if_neg (fun h => hle (UInt64.le_iff_toNat_le.mpr h))]

theorem divide_ok {a b : UInt64} (h : b ≠ 0) : divide a b = .ok (a / b) := by
  unfold divide
  rw [if_neg h]

/-- The loop and the segment behind it are the segments of unlimited numbers. -/
theorem segmentsLoop_eq (step size : UInt64) : ∀ (n : Nat) (i prevByte : UInt64),
    prevByte.toNat ≤ size.toNat → prevByte.toNat + n * step.toNat < 2 ^ 64 →
      i.toNat + n < 2 ^ 64 →
      (segmentsLoop step size n i prevByte).1 ++
          [{ fromByte := (segmentsLoop step size n i prevByte).2.toNat, toByte := size.toNat,
             posInArray := i.toNat + n }] =
        segmentsFrom step.toNat size.toNat n i.toNat prevByte.toNat
  | 0, i, prevByte, _, _, _ => rfl
  | n + 1, i, prevByte, hle, hbytes, hindex => by
      have hmul : (n + 1) * step.toNat = n * step.toNat + step.toNat := Nat.succ_mul n step.toNat
      have hadd : (prevByte + step).toNat = prevByte.toNat + step.toNat := by
        rw [UInt64.toNat_add, Nat.mod_eq_of_lt (by omega)]
      have hnext : (min (prevByte + step) size).toNat =
          min (prevByte.toNat + step.toNat) size.toNat := by rw [toNat_min, hadd]
      have hi : (i + 1).toNat = i.toNat + 1 := by
        rw [UInt64.toNat_add, Nat.mod_eq_of_lt (by rw [UInt64.toNat_one]; omega), UInt64.toNat_one]
      have ih := segmentsLoop_eq step size n (i + 1) (min (prevByte + step) size)
        (by rw [hnext]; omega) (by rw [hnext]; omega) (by rw [hi]; omega)
      rw [hi, hnext, Nat.add_right_comm, Nat.add_assoc] at ih
      rw [segmentsFrom, ← ih, segmentsLoop, hnext]
      rfl

end P2P_Impl

/-- Segments that do not reach the end before the last are not empty. -/
theorem nonempty_segmentsFrom {step size : Nat} (hstep : 0 < step) : ∀ {n i prevByte : Nat},
    prevByte + n * step < size → ∀ s ∈ segmentsFrom step size n i prevByte, s.fromByte < s.toByte
  | 0, i, prevByte, h, s, hs => by
      rw [segmentsFrom, List.mem_singleton] at hs
      subst hs
      show prevByte < size
      omega
  | n + 1, i, prevByte, h, s, hs => by
      have hmul : (n + 1) * step = n * step + step := Nat.succ_mul n step
      rw [segmentsFrom] at hs
      rcases List.mem_cons.mp hs with rfl | hs
      · show prevByte < min (prevByte + step) size
        omega
      · exact nonempty_segmentsFrom hstep (by omega) s hs

/-- As many segments of one byte as there are bytes. -/
theorem unit_segmentsFrom {size : Nat} : ∀ {n i prevByte : Nat}, prevByte + n + 1 = size →
    ∀ s ∈ segmentsFrom 1 size n i prevByte, s.toByte = s.fromByte + 1
  | 0, i, prevByte, h, s, hs => by
      rw [segmentsFrom, List.mem_singleton] at hs
      subst hs
      exact h.symm
  | n + 1, i, prevByte, h, s, hs => by
      have hmin : min (prevByte + 1) size = prevByte + 1 := by omega
      rw [segmentsFrom, hmin] at hs
      rcases List.mem_cons.mp hs with rfl | hs
      · rfl
      · exact unit_segmentsFrom (by omega) s hs

/-- The steps before the last segment end before the size, whichever way they were rounded. -/
theorem steps_lt_size {count size minSize : Nat} (hcount : 0 < count) (hsize : 0 < size)
    (hmin : 0 < minSize) (hle : count ≤ (size + minSize - 1) / minSize) :
    (count - 1) * segmentStep count size minSize < size := by
  have hneeded : (count - 1) * minSize < size := by
    have h := Nat.mul_le_of_le_div _ _ _ hle
    have hmul : (count - 1 + 1) * minSize = (count - 1) * minSize + minSize :=
      Nat.succ_mul (count - 1) minSize
    rw [Nat.sub_add_cancel hcount] at hmul
    omega
  have hshare : (count - 1) * (size / count) < size := by
    have h := Nat.mul_div_le size count
    by_cases hzero : size / count = 0
    · rw [hzero, Nat.mul_zero]
      exact hsize
    · have hlt : (count - 1) * (size / count) < count * (size / count) :=
        Nat.mul_lt_mul_of_pos_right (by omega) (Nat.pos_of_ne_zero hzero)
      omega
  unfold segmentStep
  calc (count - 1) * min size (max (size / count) minSize)
      ≤ (count - 1) * max (size / count) minSize :=
        Nat.mul_le_mul_left _ (Nat.min_le_right _ _)
    _ = max ((count - 1) * (size / count)) ((count - 1) * minSize) :=
        (Nat.mul_max_mul_left _ _ _).symm
    _ < size := by omega

namespace P2P_Impl

theorem countSegments_ok {size minSize m : UInt64} (hmin : 1 ≤ minSize.toNat)
    (hfit : size.toNat + minSize.toNat < 2 ^ 64) :
    ∃ count, countSegments size minSize m = .ok count ∧
      count.toNat = TorrentNode.countSegments size.toNat minSize.toNat m.toNat := by
  have hone : minSize = 1 ↔ minSize.toNat = 1 := by
    rw [← UInt64.toNat_inj, UInt64.toNat_one]
  unfold countSegments TorrentNode.countSegments
  by_cases h : minSize = 1
  · refine ⟨size, if_pos h, ?_⟩
    rw [if_pos (hone.mp h)]
  · have hzero : minSize ≠ 0 := by
      intro hz
      rw [hz, UInt64.toNat_zero] at hmin
      omega
    refine ⟨min ((size + minSize - 1) / minSize) m, ?_, ?_⟩
    · dsimp only
      rw [if_neg h, divide_ok hzero]
      rfl
    · have hsum : (size + minSize).toNat = size.toNat + minSize.toNat := by
        rw [UInt64.toNat_add, Nat.mod_eq_of_lt hfit]
      have hle : (1 : UInt64) ≤ size + minSize := by
        rw [UInt64.le_iff_toNat_le, hsum, UInt64.toNat_one]
        omega
      rw [if_neg (fun h' => h (hone.mpr h')), toNat_min, UInt64.toNat_div,
        UInt64.toNat_sub_of_le _ _ hle, hsum, UInt64.toNat_one]

/-- What the sizes make of the number of segments. -/
theorem countSegments_bounds {size minSize m : Nat} (hsize : 1 ≤ size) (hmin : 1 ≤ minSize)
    (hm : 1 ≤ m) :
    1 ≤ TorrentNode.countSegments size minSize m ∧
      TorrentNode.countSegments size minSize m ≤ (size + minSize - 1) / minSize := by
  unfold TorrentNode.countSegments
  split
  · rename_i hone
    rw [hone, Nat.div_one]
    omega
  · have hneeded : 1 ≤ (size + minSize - 1) / minSize :=
      (Nat.one_le_div_iff (by omega)).mpr (by omega)
    omega

/-- In that many segments the program and the unlimited numbers agree. -/
theorem makeSegments_eq {count size minSize : UInt64} (hcount : 1 ≤ count.toNat)
    (hsize : 1 ≤ size.toNat) (hmin : 1 ≤ minSize.toNat)
    (hsteps : (count.toNat - 1) * segmentStep count.toNat size.toNat minSize.toNat < size.toNat) :
    makeSegments count size minSize =
      .ok (segmentsFrom (segmentStep count.toNat size.toNat minSize.toNat) size.toNat
        (count.toNat - 1) 0 0) := by
  have hzero : count ≠ 0 := by
    intro hz
    rw [hz, UInt64.toNat_zero] at hcount
    omega
  -- The step is positive and the same as over the natural numbers.
  have hstep : (min size (max (size / count) minSize)).toNat =
      segmentStep count.toNat size.toNat minSize.toNat := by
    rw [toNat_min, toNat_max, UInt64.toNat_div]
    rfl
  have hpos : 0 < segmentStep count.toNat size.toNat minSize.toNat := by
    unfold segmentStep
    omega
  have hcheck : (min size (max (size / count) minSize) != 0) = true := by
    rw [bne_iff_ne, Ne, ← UInt64.toNat_inj, hstep, UInt64.toNat_zero]
    omega
  have hrounds : (count - 1).toNat = count.toNat - 1 := by
    have hle : (1 : UInt64) ≤ count := by
      rw [UInt64.le_iff_toNat_le, UInt64.toNat_one]
      exact hcount
    rw [UInt64.toNat_sub_of_le _ _ hle, UInt64.toNat_one]
  have hbound := size.toNat_lt
  have hcountBound := count.toNat_lt
  -- No sum in the loop passes the size, so none wraps around.
  have hloop := segmentsLoop_eq (min size (max (size / count) minSize)) size (count.toNat - 1) 0 0
    (Nat.zero_le _) (by rw [hstep, UInt64.toNat_zero]; omega) (by rw [UInt64.toNat_zero]; omega)
  rw [hstep, UInt64.toNat_zero, Nat.zero_add] at hloop
  unfold makeSegments
  rw [divide_ok hzero]
  show (check (min size (max (size / count) minSize) != 0) "step == 0" >>= fun _ => _) = _
  rw [hcheck, ← hloop, hrounds]
  rfl

/-- **A download is cut into as many segments as are asked for, none of them empty.** -/
theorem makeSegments_requested {size minSize m : UInt64} (hsize : 1 ≤ size.toNat)
    (hmin : 1 ≤ minSize.toNat) (hm : 1 ≤ m.toNat) (hfit : size.toNat + minSize.toNat < 2 ^ 64) :
    ∃ count segments, countSegments size minSize m = .ok count ∧
      count.toNat = (if minSize.toNat = 1 then size.toNat
        else min ((size.toNat + minSize.toNat - 1) / minSize.toNat) m.toNat) ∧
      1 ≤ count.toNat ∧
      makeSegments count size minSize = .ok segments ∧
      segments.length = count.toNat ∧
      (∀ s ∈ segments, s.fromByte < s.toByte) ∧
      segments.map Segment.posInArray = List.range count.toNat ∧
      Contiguous 0 size.toNat segments ∧
      (minSize.toNat = 1 → ∀ s ∈ segments, s.toByte = s.fromByte + 1 ∧
        ∀ {α : Type} (makeQsAndPost : Nat → Except Err α),
          makeQsAndPortImpl makeQsAndPost s.fromByte s.toByte = makeQsAndPost s.fromByte) := by
  obtain ⟨count, hrequested, hcount⟩ := countSegments_ok (m := m) hmin hfit
  obtain ⟨hpos, hle⟩ := countSegments_bounds hsize hmin hm
  have hformula := hcount
  rw [← hcount] at hpos hle
  -- All steps but the last fit, so that no segment is empty.
  have hsteps := steps_lt_size hpos hsize hmin hle
  have hstep : 0 < segmentStep count.toNat size.toNat minSize.toNat := by
    unfold segmentStep
    omega
  have hindices := posInArray_segmentsFrom (segmentStep count.toNat size.toNat minSize.toNat)
    size.toNat (count.toNat - 1) 0 0
  rw [Nat.sub_add_cancel hpos] at hindices
  refine ⟨count, _, hrequested, hformula, hpos, makeSegments_eq hpos hsize hmin hsteps, ?_,
    nonempty_segmentsFrom hstep (by rwa [Nat.zero_add]), hindices.trans List.range_eq_range'.symm,
    contiguous_segmentsFrom _ _ _ _ _ (Nat.zero_le _), ?_⟩
  · have hlength := congrArg List.length hindices
    rwa [List.length_map, List.length_range'] at hlength
  · intro hone s hs
    -- A part for each byte: as many segments as bytes, each of one.
    have hall : count.toNat = size.toNat := by
      rw [hcount, TorrentNode.countSegments, if_pos hone]
    have hunit : segmentStep count.toNat size.toNat minSize.toNat = 1 := by
      unfold segmentStep
      rw [hall, hone, Nat.div_self hsize]
      omega
    rw [hunit] at hs
    have hbyte := unit_segmentsFrom (by omega) s hs
    refine ⟨hbyte, fun makeQsAndPost => ?_⟩
    unfold makeQsAndPortImpl
    rw [hbyte, beq_self_eq_true]
    rfl

/-- Three connections for a little more than two of the least segments. -/
theorem makeSegments_requested_three :
    ∃ count segments, countSegments 25000 10000 3 = .ok count ∧
      count.toNat = (if (10000 : UInt64).toNat = 1 then (25000 : UInt64).toNat
        else min (((25000 : UInt64).toNat + (10000 : UInt64).toNat - 1) / (10000 : UInt64).toNat)
          (3 : UInt64).toNat) ∧
      1 ≤ count.toNat ∧
      makeSegments count 25000 10000 = .ok segments ∧
      segments.length = count.toNat ∧
      (∀ s ∈ segments, s.fromByte < s.toByte) ∧
      segments.map Segment.posInArray = List.range count.toNat ∧
      Contiguous 0 (25000 : UInt64).toNat segments ∧
      ((10000 : UInt64).toNat = 1 → ∀ s ∈ segments, s.toByte = s.fromByte + 1 ∧
        ∀ {α : Type} (makeQsAndPost : Nat → Except Err α),
          makeQsAndPortImpl makeQsAndPost s.fromByte s.toByte = makeQsAndPost s.fromByte) :=
  makeSegments_requested (by decide) (by decide) (by decide) (by decide)

end P2P_Impl

end TorrentNode
