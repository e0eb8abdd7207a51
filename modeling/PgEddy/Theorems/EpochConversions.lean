import PgEddy.TemporalParts

/-!
# Counting from 1970 and back

The constructors divide towards zero and take the remainder as an unsigned number, so before 1970 they reach the instants of whole
seconds only. The properties divide downwards. A count of seconds is also taken apart into nanoseconds, and those have to be a
machine integer.
-/

namespace PgEddy

open Signed64

variable {ch : Chrono} {N : NaiveLib ch}

/-- The second falls on a day of the calendar. -/
def NaiveLib.HasSecond (N : NaiveLib ch) (secs : Int) : Prop := ∃ d, N.numDaysFromCe d = secs / 86400 + epochDay

/-- A property of a temporal value is an integer. -/
def HasProperty (N : NaiveLib ch) (tv : TemporalValue ch) (key : String) (z : Int) : Prop :=
  ∃ i, temporalGetProperty N tv key = .int i ∧ i.toInt = z

/-- The call succeeds with a temporal value of which a statement holds. -/
def Succeeds (call : Option (Exec (Value ch))) (post : TemporalValue ch → Prop) : Prop :=
  ∃ tv, call = some (.ok (.temporal tv)) ∧ post tv

/-- A count of nanoseconds since 1970 that the constructors read: none between whole seconds before 1970. -/
def CountedExactly (count unit : Int) : Prop := 0 ≤ count ∨ unit ∣ count

/-- The nanoseconds since 1970 of a count of seconds and of nanoseconds. -/
def nanosCount (s n : Int64) : Int := s.toInt * 1000000000 + n.toInt

/-- The count is a machine integer, and in a debug build the seconds are one as nanoseconds. -/
def CountFits (build : Build) (s n : Int64) : Prop := (build = .debug → Fits (s.toInt * 1000000000)) ∧ Fits (nanosCount s n)

namespace EpochConversionsAux

/-! ## The datetime of a count -/

/-- A remainder that is not negative stays what it is, and a negative one is no count of nanoseconds. -/
theorem asU32_of_nonneg {z : Int} (h : 0 ≤ z) (hlt : z < 2 ^ 32) : (asU32 z : Int) = z := by
  unfold asU32
  omega

theorem not_nanosFit_of_neg {z : Int} (h : z < 0) (hlt : -1000000000 ≤ z) (second : Nat) : ¬NanosFit second (asU32 z) := by
  unfold NanosFit asU32
  omega

/-- The seconds and the nanoseconds of a count that the constructors read are those of the division downwards. -/
theorem div_of_counted {count unit : Int} (hunit : 0 < unit) (h : CountedExactly count unit) :
    count.tdiv unit = count / unit ∧ count.tmod unit = count % unit := by
  rcases h with h | h
  · exact ⟨Int.tdiv_eq_ediv_of_nonneg h, Int.tmod_eq_emod_of_nonneg h⟩
  · exact ⟨Int.tdiv_eq_ediv_of_dvd h, by rw [Int.tmod_eq_zero_of_dvd h, Int.emod_eq_zero_of_dvd h]⟩

/-- Between whole seconds before 1970 the remainder is negative. -/
theorem tmod_neg {count unit : Int} (hunit : 0 < unit) (h : ¬CountedExactly count unit) :
    count.tmod unit < 0 ∧ -unit < count.tmod unit := by
  unfold CountedExactly at h
  push Not at h
  obtain ⟨hneg, hdvd⟩ := h
  have hne : count.tmod unit ≠ 0 := fun h => hdvd (Int.dvd_of_tmod_eq_zero h)
  have hle : 0 ≤ (-count).tmod unit := Int.tmod_nonneg _ (by omega)
  have hlt := Int.lt_tmod_of_pos count hunit
  rw [Int.neg_tmod] at hle
  omega

theorem epochDatetime_error (hN : N.LawfulTimestamps) {function : String} {secs : Int} {nanos : Nat}
    (h : ∀ second, ¬NanosFit second nanos) :
    epochDatetime N function secs nanos = .error (.error (function ++ "(): invalid epoch value")) := by
  have hnone : N.fromTimestamp secs nanos = none := by
    by_contra hsome
    obtain ⟨-, hfit⟩ := hN.fromTimestamp_isSome.mp (Option.isSome_iff_ne_none.mpr hsome)
    exact h _ hfit
  rw [epochDatetime, hnone]

/-- The datetime of a second of the calendar and of a fraction of it. -/
theorem epochDatetime_ok (hN : N.LawfulTimestamps) {function : String} {secs : Int} {nanos : Nat} (hsecs : N.HasSecond secs)
    (hnanos : nanos < 1000000000) :
    ∃ tv d t, epochDatetime N function secs nanos = .ok (.temporal tv) ∧ tv.kind = .dateTime ∧ tv.date = some d ∧
      tv.time = some t ∧ tv.offsetSecs = some 0 ∧ N.timestamp d t = secs ∧ N.nanosecond t = nanos := by
  obtain ⟨⟨d, t⟩, hsome⟩ := Option.isSome_iff_exists.mp (hN.fromTimestamp_isSome.mpr ⟨hsecs, .inl hnanos⟩)
  obtain ⟨hstamp, hns⟩ := hN.fromTimestamp_eq_some hsome
  exact ⟨_, d, t, by rw [epochDatetime, hsome], rfl, rfl, rfl, rfl, hstamp, hns⟩

/-- The datetime that is given has the second and the nanosecond asked for. -/
theorem of_epochDatetime (hN : N.LawfulTimestamps) {function : String} {secs : Int} {nanos : Nat} {tv : TemporalValue ch}
    (h : epochDatetime N function secs nanos = .ok (.temporal tv)) :
    ∃ d t, tv.kind = .dateTime ∧ tv.date = some d ∧ tv.time = some t ∧ tv.offsetSecs = some 0 ∧ N.timestamp d t = secs ∧
      N.nanosecond t = nanos := by
  unfold epochDatetime at h
  cases hsome : N.fromTimestamp secs nanos with
  | none =>
    rw [hsome] at h
    nomatch h
  | some dt =>
    obtain ⟨d, t⟩ := dt
    rw [hsome] at h
    cases h
    obtain ⟨hstamp, hns⟩ := hN.fromTimestamp_eq_some hsome
    exact ⟨d, t, rfl, rfl, rfl, rfl, hstamp, hns⟩

/-! ## The properties of a datetime -/

variable {tv : TemporalValue ch} {d : ch.Date} {t : ch.Time} {s : Int}

theorem epochSeconds_eq (hkind : tv.kind = .dateTime) (hd : tv.date = some d) (ht : tv.time = some t)
    (hoff : tv.offsetSecs = some 0) : temporalEpochSeconds N tv = some (N.timestamp d t) := by
  rw [temporalEpochSeconds, hkind, hd, ht, hoff]
  change some (N.timestamp d t - 0) = _
  rw [sub_zero]

theorem intProperty_some {z : Int} (h : Fits z) : ∃ i, (intProperty (some z) : Value ch) = .int i ∧ i.toInt = z :=
  ⟨_, rfl, toInt_ofInt_of_fits h⟩

theorem hasProperty_epochSeconds (h : temporalEpochSeconds N tv = some s) (hfits : Fits s) :
    HasProperty N tv "epochSeconds" s := by
  unfold HasProperty
  change ∃ i, intProperty (temporalEpochSeconds N tv) = _ ∧ _
  rw [h]
  exact intProperty_some hfits

theorem hasProperty_epochMillis (h : temporalEpochSeconds N tv = some s) (ht : tv.time = some t)
    (hfits : Fits (s * 1000 + (N.nanosecond t / 1000000 : Nat))) :
    HasProperty N tv "epochMillis" (s * 1000 + (N.nanosecond t / 1000000 : Nat)) := by
  unfold HasProperty
  change ∃ i, intProperty ((temporalEpochSeconds N tv).map _) = _ ∧ _
  rw [h, ht]
  exact intProperty_some hfits

theorem hasProperty_nanosecond (ht : tv.time = some t) (hfits : Fits (N.nanosecond t)) :
    HasProperty N tv "nanosecond" (N.nanosecond t) := by
  unfold HasProperty
  change ∃ i, intProperty (tv.time.map _) = _ ∧ _
  rw [ht]
  exact intProperty_some hfits

/-- A property has one value. -/
theorem HasProperty.unique {key : String} {a b : Int} (ha : HasProperty N tv key a) (hb : HasProperty N tv key b) : a = b := by
  obtain ⟨i, hi, rfl⟩ := ha
  obtain ⟨j, hj, rfl⟩ := hb
  rw [hi] at hj
  cases hj
  rfl

/-! ## Milliseconds -/

theorem fromEpochMillis_eq (name : Exec (Value ch)) (m : Int64) (rest : List (Exec (Value ch))) :
    fromEpochMillis N (name :: .ok (.int m) :: rest) =
      some (epochDatetime N "fromepochmillis" (m.toInt.tdiv 1000) (asU32 (m.toInt.tmod 1000 * 1000000))) := rfl

theorem millis_of_counted (hN : N.LawfulTimestamps) {m : Int64} (hsec : N.HasSecond (m.toInt / 1000))
    (h : CountedExactly m.toInt 1000) (name : Exec (Value ch)) (rest : List (Exec (Value ch))) :
    Succeeds (fromEpochMillis N (name :: .ok (.int m) :: rest)) fun tv => HasProperty N tv "epochMillis" m.toInt := by
  obtain ⟨hdiv, hmod⟩ := div_of_counted (by decide) h
  have hnanos : asU32 (m.toInt % 1000 * 1000000) = (m.toInt % 1000 * 1000000).toNat := by
    have := @asU32_of_nonneg (m.toInt % 1000 * 1000000) (by omega) (by omega)
    omega
  obtain ⟨tv, d, t, hok, hkind, hd, ht, hoff, hstamp, hns⟩ :=
    @epochDatetime_ok _ _ hN "fromepochmillis" _ (m.toInt % 1000 * 1000000).toNat hsec (by omega)
  refine ⟨tv, ?_, ?_⟩
  · rw [fromEpochMillis_eq, hdiv, hmod, hnanos, hok]
  · have hmillis : N.timestamp d t * 1000 + (N.nanosecond t / 1000000 : Nat) = m.toInt := by
      rw [hstamp, hns]
      omega
    rw [← hmillis]
    refine hasProperty_epochMillis (epochSeconds_eq hkind hd ht hoff) ht ?_
    rw [hmillis]
    exact fits_toInt m

theorem counted_of_millis (hN : N.LawfulTimestamps) {m : Int64} {name : Exec (Value ch)} {rest : List (Exec (Value ch))}
    {post : TemporalValue ch → Prop} (h : Succeeds (fromEpochMillis N (name :: .ok (.int m) :: rest)) post) :
    CountedExactly m.toInt 1000 := by
  by_contra hnot
  obtain ⟨tv, hok, -⟩ := h
  obtain ⟨hneg, hlt⟩ := tmod_neg (by decide) hnot
  have herror : ∀ second, ¬NanosFit second (asU32 (m.toInt.tmod 1000 * 1000000)) :=
    not_nanosFit_of_neg (by omega) (by omega)
  rw [fromEpochMillis_eq, epochDatetime_error hN herror] at hok
  nomatch hok

/-! ## Seconds and nanoseconds -/

/-- What is left of `fromepoch` once the count of nanoseconds is there. -/
theorem fromEpoch_eq (build : Build) (name : Exec (Value ch)) (s n : Int64) :
    fromEpoch N build [name, .ok (.int s), .ok (.int n)] = some (do
      let scaled ← build.int (s.toInt * 1000000000)
      let totalNanos ← build.int (scaled.toInt + n.toInt)
      epochDatetime N "fromepoch" (totalNanos.toInt.tdiv 1000000000) (asU32 (totalNanos.toInt.tmod 1000000000))) := rfl

theorem wrapped_sum (s n : Int64) :
    Int64.ofInt ((Int64.ofInt (s.toInt * 1000000000)).toInt + n.toInt) = .ofInt (nanosCount s n) := by
  rw [nanosCount, Int64.ofInt_add, Int64.ofInt_toInt, Int64.ofInt_add]

/-- A count in range is what the constructor divides. -/
theorem fromEpoch_of_fits {build : Build} {s n : Int64} (h : CountFits build s n) (name : Exec (Value ch)) :
    fromEpoch N build [name, .ok (.int s), .ok (.int n)] =
      some (epochDatetime N "fromepoch" ((nanosCount s n).tdiv 1000000000) (asU32 ((nanosCount s n).tmod 1000000000))) := by
  have htotal := toInt_ofInt_of_fits h.2
  rw [fromEpoch_eq]
  cases build with
  | release =>
    change some (epochDatetime N "fromepoch" ((Int64.ofInt (_ + n.toInt)).toInt.tdiv _)
      (asU32 ((Int64.ofInt (_ + n.toInt)).toInt.tmod _))) = _
    rw [wrapped_sum, htotal]
  | debug =>
    have hscaled : Build.int .debug (s.toInt * 1000000000) = .ok (.ofInt (s.toInt * 1000000000)) := if_pos (h.1 rfl)
    have hsum : Build.int .debug ((Int64.ofInt (s.toInt * 1000000000)).toInt + n.toInt) = .ok (.ofInt (nanosCount s n)) := by
      rw [← wrapped_sum]
      refine if_pos ?_
      rw [toInt_ofInt_of_fits (h.1 rfl)]
      exact h.2
    rw [hscaled]
    change some (Build.int .debug _ >>= _) = _
    rw [hsum]
    change some (epochDatetime N "fromepoch" _ _) = _
    rw [htotal]

/-- What the constructor divides, if it comes to that. -/
theorem count_of_fromEpoch {build : Build} {s n : Int64} {name : Exec (Value ch)} {tv : TemporalValue ch}
    (h : fromEpoch N build [name, .ok (.int s), .ok (.int n)] = some (.ok (.temporal tv))) :
    (build = .debug → CountFits build s n) ∧
      epochDatetime N "fromepoch" ((Int64.ofInt (nanosCount s n)).toInt.tdiv 1000000000)
        (asU32 ((Int64.ofInt (nanosCount s n)).toInt.tmod 1000000000)) = .ok (.temporal tv) := by
  rw [fromEpoch_eq] at h
  have h := Option.some.inj h
  cases build with
  | release =>
    refine ⟨nofun, ?_⟩
    rw [← wrapped_sum]
    exact h
  | debug =>
    by_cases hscaled : Fits (s.toInt * 1000000000)
    · rw [show Build.int .debug (s.toInt * 1000000000) = .ok (.ofInt (s.toInt * 1000000000)) from if_pos hscaled] at h
      by_cases hsum : Fits (nanosCount s n)
      · refine ⟨fun _ => ⟨fun _ => hscaled, hsum⟩, ?_⟩
        have hexact : (Int64.ofInt (s.toInt * 1000000000)).toInt + n.toInt = nanosCount s n := by
          rw [toInt_ofInt_of_fits hscaled, nanosCount]
        change Build.int .debug (_ + n.toInt) >>= _ = _ at h
        rw [hexact, show Build.int .debug (nanosCount s n) = .ok (.ofInt (nanosCount s n)) from if_pos hsum] at h
        exact h
      · have hexact : (Int64.ofInt (s.toInt * 1000000000)).toInt + n.toInt = nanosCount s n := by
          rw [toInt_ofInt_of_fits hscaled, nanosCount]
        change Build.int .debug (_ + n.toInt) >>= _ = _ at h
        rw [hexact, show Build.int .debug (nanosCount s n) = .error .overflow from if_neg hsum] at h
        nomatch h
    · rw [show Build.int .debug (s.toInt * 1000000000) = .error .overflow from if_neg hscaled] at h
      nomatch h

/-- What is divided is the count, and the remainder is not negative, if the properties are those of the count. -/
theorem count_eq {w count : Int} (hdiv : w.tdiv 1000000000 = count / 1000000000)
    (hmod : (asU32 (w.tmod 1000000000) : Int) = count % 1000000000) : w = count ∧ CountedExactly w 1000000000 := by
  have hsplit := Int.mul_tdiv_add_tmod w 1000000000
  have hcounted : CountedExactly w 1000000000 := by
    by_contra hnot
    obtain ⟨hneg, hlt⟩ := tmod_neg (by decide) hnot
    unfold asU32 at hmod
    omega
  obtain ⟨hq, hr⟩ := div_of_counted (by decide) hcounted
  rw [hr, asU32_of_nonneg (by omega) (by omega)] at hmod
  exact ⟨by omega, hcounted⟩

theorem epoch_of_counted (hN : N.LawfulTimestamps) {build : Build} {s n : Int64}
    (hsec : N.HasSecond (nanosCount s n / 1000000000)) (hfits : CountFits build s n)
    (h : CountedExactly (nanosCount s n) 1000000000) (name : Exec (Value ch)) :
    Succeeds (fromEpoch N build [name, .ok (.int s), .ok (.int n)]) fun tv =>
      HasProperty N tv "epochSeconds" (nanosCount s n / 1000000000) ∧
        HasProperty N tv "nanosecond" (nanosCount s n % 1000000000) := by
  obtain ⟨hdiv, hmod⟩ := div_of_counted (by decide) h
  have hnanos : asU32 (nanosCount s n % 1000000000) = (nanosCount s n % 1000000000).toNat := by
    have := @asU32_of_nonneg (nanosCount s n % 1000000000) (by omega) (by omega)
    omega
  obtain ⟨tv, d, t, hok, hkind, hd, ht, hoff, hstamp, hns⟩ :=
    @epochDatetime_ok _ _ hN "fromepoch" _ (nanosCount s n % 1000000000).toNat hsec (by omega)
  have hrange := hfits.2
  unfold Fits at hrange
  refine ⟨tv, ?_, ?_, ?_⟩
  · rw [fromEpoch_of_fits hfits, hdiv, hmod, hnanos, hok]
  · have hseconds := epochSeconds_eq (N := N) hkind hd ht hoff
    rw [hstamp] at hseconds
    refine hasProperty_epochSeconds hseconds ?_
    unfold Fits
    omega
  · have hproperty : (N.nanosecond t : Int) = nanosCount s n % 1000000000 := by
      rw [hns]
      omega
    rw [← hproperty]
    refine hasProperty_nanosecond ht ?_
    unfold Fits
    omega

theorem counted_of_epoch (hN : N.LawfulTimestamps) {build : Build} {s n : Int64} {name : Exec (Value ch)}
    (h : Succeeds (fromEpoch N build [name, .ok (.int s), .ok (.int n)]) fun tv =>
      HasProperty N tv "epochSeconds" (nanosCount s n / 1000000000) ∧
        HasProperty N tv "nanosecond" (nanosCount s n % 1000000000)) :
    CountFits build s n ∧ CountedExactly (nanosCount s n) 1000000000 := by
  obtain ⟨tv, hok, hsecs, hnanos⟩ := h
  obtain ⟨hdebug, hcall⟩ := count_of_fromEpoch hok
  obtain ⟨d, t, hkind, hd, ht, hoff, hstamp, hns⟩ := of_epochDatetime hN hcall
  have hseconds := epochSeconds_eq (N := N) hkind hd ht hoff
  rw [hstamp] at hseconds
  have hfits : Fits ((Int64.ofInt (nanosCount s n)).toInt.tdiv (1000000000 : Int64).toInt) := fits_tdiv fun h => nomatch h.2
  have hdiv := HasProperty.unique (hasProperty_epochSeconds hseconds hfits) hsecs
  have hlt : asU32 ((Int64.ofInt (nanosCount s n)).toInt.tmod 1000000000) < 2 ^ 32 := by
    unfold asU32
    omega
  have hmod := HasProperty.unique (hasProperty_nanosecond ht (by unfold Fits; omega)) hnanos
  rw [hns] at hmod
  obtain ⟨heq, hcounted⟩ := count_eq hdiv hmod
  rw [heq] at hcounted
  exact ⟨⟨fun hbuild => (hdebug hbuild).1 hbuild, toInt_ofInt_iff.mp heq⟩, hcounted⟩

end EpochConversionsAux

open EpochConversionsAux

/-- Milliseconds since 1970 come back unless they lie between whole seconds before 1970. Seconds and nanoseconds since 1970 do so
too, if there are not too many of them. -/
theorem epoch_conversions_iff (hN : N.LawfulTimestamps) (build : Build) (name : Exec (Value ch)) :
    (∀ m : Int64, N.HasSecond (m.toInt / 1000) →
      ((Succeeds (fromEpochMillis N [name, .ok (.int m)]) fun tv => HasProperty N tv "epochMillis" m.toInt) ↔
        CountedExactly m.toInt 1000)) ∧
    ∀ s n : Int64, N.HasSecond (nanosCount s n / 1000000000) →
      ((Succeeds (fromEpoch N build [name, .ok (.int s), .ok (.int n)]) fun tv =>
          HasProperty N tv "epochSeconds" (nanosCount s n / 1000000000) ∧
            HasProperty N tv "nanosecond" (nanosCount s n % 1000000000)) ↔
        CountFits build s n ∧ CountedExactly (nanosCount s n) 1000000000) := by
  constructor
  · intro m hsec
    exact ⟨fun h => counted_of_millis hN h, fun h => millis_of_counted hN hsec h name []⟩
  · intro s n hsec
    exact ⟨fun h => counted_of_epoch hN h, fun ⟨hfits, h⟩ => epoch_of_counted hN hsec hfits h name⟩

/-- A second and a half after the start of 1970 comes back, and so does the second before it. -/
theorem epoch_conversions_iff_half :
    (Succeeds (fromEpochMillis Proleptic.lib [.ok .null, .ok (.int 1500)]) fun tv =>
      HasProperty Proleptic.lib tv "epochMillis" 1500) ∧
    Succeeds (fromEpoch Proleptic.lib .debug [.ok .null, .ok (.int (-1)), .ok (.int 0)]) fun tv =>
      HasProperty Proleptic.lib tv "epochSeconds" (-1) ∧ HasProperty Proleptic.lib tv "nanosecond" 0 := by
  obtain ⟨hmillis, hepoch⟩ := epoch_conversions_iff Proleptic.lib_lawfulTimestamps .debug (.ok .null)
  constructor
  · refine (hmillis 1500 ⟨⟨⟨1970, 1, 1, ?_, ?_, ?_, ?_⟩, ?_, ?_⟩, ?_⟩).mpr (.inl ?_) <;> decide
  · refine (hepoch (-1) 0 ⟨⟨⟨1969, 12, 31, ?_, ?_, ?_, ?_⟩, ?_, ?_⟩, ?_⟩).mpr ⟨?_, .inr ?_⟩
    all_goals first | decide | exact ⟨fun _ => by decide, by decide⟩

/-- One millisecond before 1970 is refused. -/
theorem millisecond_before_1970 :
    Proleptic.lib.HasSecond ((-1 : Int64).toInt / 1000) ∧
      ¬Succeeds (fromEpochMillis Proleptic.lib [.ok .null, .ok (.int (-1))]) fun tv =>
        HasProperty Proleptic.lib tv "epochMillis" (-1 : Int64).toInt := by
  refine ⟨⟨⟨⟨1969, 12, 31, by decide, by decide, by decide, by decide⟩, by decide, by decide⟩, by decide⟩, ?_⟩
  intro h
  have := counted_of_millis Proleptic.lib_lawfulTimestamps h
  revert this
  unfold CountedExactly
  decide

end PgEddy
