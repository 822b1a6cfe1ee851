import FileSearch.Proofs.Query.Clauses

/-!
How large the numbers of a query are. A numeral is refused when it does not fit a signed 64-bit
integer, and depths and ages are numerals. A size is a numeral times the bytes of its unit, and it
is only the numeral that is looked at, so that the size may be larger.
Main statement: the numbers of a query all fit if and only if its size does, which is told by the
numeral and the unit; a value with a numeral that is too large is refused, whatever operator it
belongs to and whatever comes after it.
-/

namespace FileSearch

/-- Every number of the query fits a signed 64-bit integer. -/
structure Query.IsBounded (q : Query) : Prop where
  maxDepth : ∀ depth, q.maxDepth = some depth → depth ≤ maxNumeral
  minDepth : ∀ depth, q.minDepth = some depth → depth ≤ maxNumeral
  size : ∀ c, q.size = some c → c.value ≤ maxNumeral
  age : ∀ c, q.age = some c → c.value ≤ maxNumeral

/-- What has to be a numeral in the value of an operator that takes a number. -/
def Operator.numeral? : Operator → Text → Option Text
  | .maxDepth, value | .minDepth, value => some value
  | .size, value => some (splitUnit (splitCompare value).2).1
  | .age, value => some (splitCompare value).2
  | .name, _ | .nameAnyCase, _ | .path, _ | .kind, _ => none

/-- The number of units in a size, and the bytes of one. -/
structure SizeParts (value : Text) (count bytes : Nat) : Prop where
  count : readNumeral (splitUnit (splitCompare value).2).1 = .ok count
  bytes : unitBytes (lowerCase (splitUnit (splitCompare value).2).2) = some bytes

variable {o : Operator} {value numeral : Text} {c : Comparison} {count bytes : Nat}
  {clauses : List Clause} {q : Query} {tokens rest : List Text}

/-! ### Numbers in values -/

theorem le_maxNumeral_of_readNumeral (h : readNumeral numeral = .ok count) :
    count ≤ maxNumeral := by
  obtain ⟨-, -, -, hle, rfl⟩ := readNumeral_eq_ok_iff.1 h
  exact hle

theorem exists_error_of_too_large (h : maxNumeral < digitsValue numeral) :
    ∃ e, readNumeral numeral = .error e := by
  cases hread : readNumeral numeral with
  | error e => exact ⟨e, rfl⟩
  | ok n =>
    obtain ⟨-, -, -, hle, -⟩ := readNumeral_eq_ok_iff.1 hread
    exact absurd hle (Nat.not_le.2 h)

theorem unitBytes_pos {unit : Text} (h : unitBytes unit = some bytes) : 0 < bytes := by
  unfold unitBytes at h
  split at h <;> cases h <;> decide

theorem unitBytes_le {unit : Text} (h : unitBytes unit = some bytes) :
    bytes ≤ 1024 * 1024 * 1024 := by
  unfold unitBytes at h
  split at h <;> cases h <;> decide

theorem readSize_eq_ok_iff :
    readSize value = .ok c ↔ ∃ count bytes, SizeParts value count bytes ∧
      c = ⟨(splitCompare value).1, count * bytes⟩ := by
  unfold readSize
  constructor
  · intro h
    cases hcount : readNumeral (splitUnit (splitCompare value).2).1 with
    | error e => simp [hcount] at h
    | ok count =>
      cases hbytes : unitBytes (lowerCase (splitUnit (splitCompare value).2).2) with
      | none => simp [hcount, hbytes] at h
      | some bytes =>
        simp only [hcount, hbytes, Except.ok.injEq] at h
        exact ⟨count, bytes, ⟨hcount, hbytes⟩, h.symm⟩
  · rintro ⟨count, bytes, ⟨hcount, hbytes⟩, rfl⟩
    simp only [hcount, hbytes]

theorem readAge_eq_some_iff :
    readAge value = some c ↔ ∃ days, readNumeral (splitCompare value).2 = .ok days ∧
      c = ⟨(splitCompare value).1, days⟩ := by
  unfold readAge
  cases hread : readNumeral (splitCompare value).2 <;> simp [hread, eq_comm]

/-- The size fits if and only if there are not too many units. -/
theorem SizeParts.mul_le_iff (h : SizeParts value count bytes) :
    count * bytes ≤ maxNumeral ↔ count ≤ maxNumeral / bytes :=
  (Nat.le_div_iff_mul_le (unitBytes_pos h.bytes)).symm

/-- The number is judged first, and before the unit of a size. -/
theorem Operator.refuses_of_error {e : NumeralError} (ho : o.numeral? value = some numeral)
    (he : readNumeral numeral = .error e) : o.Refuses value (.badValue o) := by
  cases o <;> cases ho
  case maxDepth | minDepth => exact .value (by simp [Accepts, he]) (absurd · (by decide))
  case age => exact .value (by simp [Accepts, readAge_eq_some_iff, he]) (absurd · (by decide))
  case size =>
    have hbad : readSize value = .error .badNumber := by simp only [readSize, he]
    exact .value (by simp [Accepts, hbad]) fun _ => hbad

theorem Operator.message_badValue (ho : o.numeral? value = some numeral) :
    (CompileError.badValue o).message = "invalid ".toList ++ o.spelling ++ " value".toList := by
  cases o <;> cases ho <;> rfl

/-! ### Numbers in queries -/

theorem depth_le_of_lastValue {depth : Nat}
    (h : ((lastValue [o] clauses).bind fun value => (readNumeral value).toOption) = some depth) :
    depth ≤ maxNumeral := by
  obtain ⟨value, -, hdepth⟩ := Option.bind_eq_some_iff.1 h
  cases hread : readNumeral value with
  | error e => simp [hread, Except.toOption] at hdepth
  | ok n =>
    simp only [hread, Except.toOption, Option.some.injEq] at hdepth
    exact hdepth ▸ le_maxNumeral_of_readNumeral hread

/-- The size of a query comes from the numeral and the unit of its last value. -/
theorem exists_parts_of_size (h : (Query.ofClauses clauses).size = some c) :
    ∃ value count bytes, lastValue [.size] clauses = some value ∧ SizeParts value count bytes ∧
      c = ⟨(splitCompare value).1, count * bytes⟩ := by
  obtain ⟨value, hvalue, hc⟩ := Option.bind_eq_some_iff.1 h
  cases hread : readSize value with
  | error e => simp [hread, Except.toOption] at hc
  | ok c' =>
    simp only [hread, Except.toOption, Option.some.injEq] at hc
    subst hc
    obtain ⟨count, bytes, hparts, rfl⟩ := readSize_eq_ok_iff.1 hread
    exact ⟨value, count, bytes, hvalue, hparts, rfl⟩

/-- Only a size can be too large. -/
theorem isBounded_ofClauses_iff :
    (Query.ofClauses clauses).IsBounded ↔
      ∀ c, (Query.ofClauses clauses).size = some c → c.value ≤ maxNumeral := by
  refine ⟨Query.IsBounded.size, fun hsize => ⟨?_, ?_, hsize, ?_⟩⟩
  · exact fun depth h => depth_le_of_lastValue h
  · exact fun depth h => depth_le_of_lastValue h
  · intro c h
    obtain ⟨value, -, hc⟩ := Option.bind_eq_some_iff.1 h
    obtain ⟨days, hdays, rfl⟩ := readAge_eq_some_iff.1 hc
    exact le_maxNumeral_of_readNumeral hdays

/-- The numbers of a query that an expression compiles to fit a signed 64-bit integer, but for the
size: this is a numeral that fits times the bytes of a unit, and it fits if and only if the numeral
is not greater than the quotient. Where a value has a numeral that does not fit, the expression is
refused as having an invalid value. -/
theorem compiled_numbers_bounded_iff (tokens : List Text) :
    (∀ q, compile tokens = .ok q → ∃ clauses, Reading tokens clauses [] ∧
      (∀ c, q.size = some c → ∃ value count bytes, lastValue [.size] clauses = some value ∧
        SizeParts value count bytes ∧ c.value = count * bytes ∧ count ≤ maxNumeral ∧
        bytes ≤ 1024 * 1024 * 1024) ∧
      (q.IsBounded ↔ ∀ value count bytes, lastValue [.size] clauses = some value →
        SizeParts value count bytes → count ≤ maxNumeral / bytes)) ∧
    ∀ clauses o value numeral rest, Reading tokens clauses (o.spelling :: value :: rest) →
      o.numeral? value = some numeral → maxNumeral < digitsValue numeral →
        compile tokens = .error (.badValue o) ∧
        (CompileError.badValue o).message =
          "invalid ".toList ++ o.spelling ++ " value".toList := by
  constructor
  · intro q hq
    obtain ⟨clauses, hread, rfl⟩ := exists_reading_of_compile hq
    refine ⟨clauses, hread, fun c hc => ?_, ?_⟩
    · obtain ⟨value, count, bytes, hvalue, hparts, rfl⟩ := exists_parts_of_size hc
      exact ⟨value, count, bytes, hvalue, hparts, rfl, le_maxNumeral_of_readNumeral hparts.count,
        unitBytes_le hparts.bytes⟩
    · rw [isBounded_ofClauses_iff]
      constructor
      · intro hsize value count bytes hvalue hparts
        refine hparts.mul_le_iff.1 (hsize ⟨(splitCompare value).1, count * bytes⟩ ?_)
        simp [Query.ofClauses, hvalue, readSize_eq_ok_iff.2 ⟨count, bytes, hparts, rfl⟩,
          Except.toOption]
      · intro hall c hc
        obtain ⟨value, count, bytes, hvalue, hparts, rfl⟩ := exists_parts_of_size hc
        exact hparts.mul_le_iff.2 (hall value count bytes hvalue hparts)
  · intro clauses o value numeral rest hread ho hlarge
    obtain ⟨e, he⟩ := exists_error_of_too_large hlarge
    refine ⟨?_, o.message_badValue ho⟩
    rw [hread.compile_eq, compileOnto_unreadable (.badValue (o.refuses_of_error ho he))]

/-- 2^53 kibibytes are 2^63 bytes, one too many for a signed integer of 64 bits. As a number of
bytes they are refused. -/
theorem compiled_numbers_bounded_iff_kibibytes :
    compile ["-size".toList, "9007199254740992k".toList] =
        .ok { size := some ⟨.exact, maxNumeral + 1⟩ } ∧
      ¬ Query.IsBounded { size := some ⟨.exact, maxNumeral + 1⟩ } ∧
      compile ["-size".toList, "9223372036854775808c".toList] = .error (.badValue .size) := by
  have hcompile : compile ["-size".toList, "9007199254740992k".toList] =
      .ok { size := some ⟨.exact, maxNumeral + 1⟩ } := rfl
  obtain ⟨clauses, -, hsize, hiff⟩ := (compiled_numbers_bounded_iff _).1 _ hcompile
  refine ⟨hcompile, fun hbounded => ?_, ?_⟩
  · obtain ⟨value, count, bytes, hvalue, hparts, hc, -⟩ := hsize _ rfl
    have hle := hparts.mul_le_iff.2 (hiff.1 hbounded value count bytes hvalue hparts)
    rw [← hc] at hle
    exact absurd hle (Nat.not_succ_le_self maxNumeral)
  · exact ((compiled_numbers_bounded_iff _).2 [] .size "9223372036854775808c".toList _ []
      ⟨rfl, nofun⟩ rfl (by decide)).1

end FileSearch
