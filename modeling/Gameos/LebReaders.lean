import Gameos.ByteReader

namespace LebReaders
open MachineWords ByteReader Leb128

-- The reader with `before` behind it and `after` in front of it.
def standing (before after : List UInt8) : ByteReader := ⟨before ++ after,before.length⟩

theorem standing_stands (before after : List UInt8) : Stands (standing before after) before after := ⟨rfl,rfl⟩

-- A read whose `ok` is false returns before current_offset is moved.
def left (reader : ByteReader) : ReadResult α → ByteReader
  | none => reader
  | some (_,next) => next

-- A reader inverts the encoding at one place: every short encoding of a value
-- that fits is read, whatever was read is the value of the bytes consumed, and
-- a read that fails leaves the reader where it was.
structure Inverts (read : ByteReader → Except Failure (ReadResult α)) (value : List UInt8 → α) (fits : α → Prop)
    (before after : List UInt8) : Prop where
  reads : ∀ bytes rest, after = bytes ++ rest → terminated bytes = true → bytes.length ≤ 10 → fits (value bytes) →
    read (standing before after) = .ok (some (value bytes,(standing before after).advance bytes.length))
  consumed : ∀ result next, read (standing before after) = .ok (some (result,next)) →
    ∃ bytes rest, after = bytes ++ rest ∧ terminated bytes = true ∧ value bytes = result ∧
      next = (standing before after).advance bytes.length
  stays : ∃ outcome, read (standing before after) = .ok outcome ∧
    (outcome.isNone = true → left (standing before after) outcome = standing before after)

-- Only the last byte of an encoding has its high bit clear.
theorem terminated_parts (whole : terminated bytes = true) :
    ∃ front last, bytes = front ++ [last] ∧ (∀ byte ∈ front, 128 ≤ byte.toNat) ∧ last.toNat < 128 := by
  induction bytes with
  | nil => cases whole
  | cons byte bytes ih =>
      cases bytes with
      | nil => exact ⟨[],byte,rfl,by simp,by simpa [terminated] using whole⟩
      | cons next bytes =>
          rw [terminated.eq_3 byte _ (by simp),Bool.and_eq_true,decide_eq_true_eq] at whole
          obtain ⟨front,last,split,continued,stop⟩ := ih whole.2
          refine ⟨byte :: front,last,by rw [split,List.cons_append],?_,stop⟩
          intro other among
          rcases List.mem_cons.mp among with rfl | among
          · exact whole.1
          · exact continued other among

theorem terminated_append (continued : ∀ byte ∈ front, 128 ≤ byte.toNat) (stop : last.toNat < 128) :
    terminated (front ++ [last]) = true := by
  induction front with
  | nil => simpa [terminated] using stop
  | cons byte front ih =>
      have rest := ih fun other among => continued other (List.mem_cons_of_mem _ among)
      rw [List.cons_append,terminated.eq_3 byte _ (by simp),Bool.and_eq_true,decide_eq_true_eq]
      exact ⟨continued byte List.mem_cons_self,rest⟩

-- Either the bytes ahead end a group within the steps left, or the loop gives up.
theorem groups_or_none (done : List UInt8) (fuel result : Nat) (stands : Stands reader before (done ++ ahead)) :
    (∃ groups rest, ahead = groups ++ rest ∧ terminated groups = true ∧ groups.length ≤ fuel) ∨
      reader.lebGroups fuel done.length result = .ok none := by
  induction fuel generalizing done ahead result with
  | zero => exact .inr rfl
  | succ fuel ih =>
      cases ahead with
      | nil =>
          right
          have exceeds : reader.remaining ≤ (done.length : Int) := by rw [stands.remaining,List.append_nil]
          rw [lebGroups,if_pos exceeds]
          rfl
      | cons byte ahead =>
          by_cases stop : byte.toNat < 128
          · exact .inl ⟨[byte],ahead,rfl,by simpa [terminated] using stop,by simp⟩
          · have moved : Stands reader before ((done ++ [byte]) ++ ahead) := by rwa [List.append_cons] at stands
            have left : ¬ reader.remaining ≤ (done.length : Int) := by
              rw [stands.remaining,List.length_append,List.length_cons]; omega
            have here : byteIn reader.source (reader.currentOffset + done.length) = .ok byte := by
              have place : (before.length : Int) + done.length = (before ++ done).length := by
                rw [List.length_append]; omega
              rw [stands.source,stands.offset,place,← List.append_assoc,byteIn_append]
            rcases ih (done ++ [byte]) (result ||| ((byte &&& 0x7f).toNat <<< (done.length * 7)) % 2^64) moved with
              ⟨groups,rest,split,whole,short⟩ | none
            · left
              refine ⟨byte :: groups,rest,by rw [split,List.cons_append],?_,by simpa using short⟩
              cases groups with
              | nil => cases whole
              | cons next groups =>
                  rw [terminated.eq_3 byte _ (by simp),Bool.and_eq_true,decide_eq_true_eq]
                  exact ⟨by omega,whole⟩
            · right
              rw [List.length_append,List.length_singleton] at none
              rw [lebGroups,if_neg left,here]
              simp only [ok_bind,continue_bit,if_neg stop]
              exact none

-- What both readers share: `word` is what comes out for an encoding, whether
-- or not its value fits.
theorem inverts_iff {read : ByteReader → Except Failure (ReadResult α)} {value word : List UInt8 → α}
    {fits : α → Prop} {before after : List UInt8}
    (words : ∀ bytes rest, terminated bytes = true → bytes.length ≤ 10 →
      read (standing before (bytes ++ rest)) =
        .ok (some (word bytes,(standing before (bytes ++ rest)).advance bytes.length)))
    (gives_up : (¬ ∃ bytes rest, after = bytes ++ rest ∧ terminated bytes = true ∧ bytes.length ≤ 10) →
      read (standing before after) = .ok none)
    (exact : ∀ bytes, terminated bytes = true → bytes.length ≤ 10 → (word bytes = value bytes ↔ fits (value bytes))) :
    Inverts read value fits before after ↔
      ∀ bytes rest, after = bytes ++ rest → terminated bytes = true → bytes.length ≤ 10 → fits (value bytes) := by
  constructor
  · intro inverts bytes rest split whole short
    subst split
    obtain ⟨others,rest',split,whole',same,moved⟩ := inverts.consumed _ _ (words bytes rest whole short)
    have width : bytes.length = others.length := by
      have offsets := congrArg ByteReader.currentOffset moved
      rw [ByteReader.advance,ByteReader.advance] at offsets
      exact Int.ofNat.inj (Int.add_left_cancel offsets)
    have equal : bytes = others := (List.append_inj split width).1
    subst equal
    exact (exact bytes whole short).mp same.symm
  · intro fit
    by_cases found : ∃ bytes rest, after = bytes ++ rest ∧ terminated bytes = true ∧ bytes.length ≤ 10
    · obtain ⟨bytes,rest,split,whole,short⟩ := found
      have same := (exact bytes whole short).mpr (fit bytes rest split whole short)
      have result := words bytes rest whole short
      rw [← split,same] at result
      refine ⟨?_,?_,⟨_,result,fun none => by cases none⟩⟩
      · intro bytes' rest' split' whole' short' fits'
        have result' := words bytes' rest' whole' short'
        rwa [← split',(exact bytes' whole' short').mpr fits'] at result'
      · intro value' next read'
        rw [result] at read'
        cases read'
        exact ⟨bytes,rest,split,whole,rfl,rfl⟩
    · have result := gives_up found
      refine ⟨?_,?_,⟨none,result,fun _ => rfl⟩⟩
      · intro bytes rest split whole short _
        exact absurd ⟨bytes,rest,split,whole,short⟩ found
      · intro value' next read'
        rw [result] at read'
        cases read'

theorem groups_none (before after : List UInt8)
    (never : ¬ ∃ bytes rest, after = bytes ++ rest ∧ terminated bytes = true ∧ bytes.length ≤ 10) :
    (standing before after).lebGroups 10 0 0 = .ok none := by
  rcases groups_or_none [] 10 0 (standing_stands before after) with found | none
  · exact absurd found never
  · exact none

-- The tenth byte is shifted by 63: one bit of it is left.
theorem unsigned_fits (whole : terminated bytes = true) (short : bytes.length ≤ 10) :
    unsignedValue bytes < 2^64 ↔ ¬ (bytes.length = 10 ∧ 1 < (bytes.getLastD 0).toNat) := by
  obtain ⟨front,last,rfl,_,stop⟩ := terminated_parts whole
  have low := unsignedValue_lt front
  have narrow : front.length ≤ 9 := by
    rw [List.length_append,List.length_singleton] at short
    exact Nat.le_of_succ_le_succ short
  have value : unsignedValue (front ++ [last]) = unsignedValue front + 128^front.length * last.toNat := by
    rw [unsignedValue_append,unsignedValue,unsignedValue,Nat.mod_eq_of_lt stop,Nat.mul_zero,Nat.add_zero]
  rw [value,List.getLastD_concat,List.length_append,List.length_singleton]
  by_cases nine : front.length = 9
  · rw [nine] at low ⊢
    omega
  · have smaller : 128^front.length ≤ 128^8 := Nat.pow_le_pow_right (by decide) (by omega)
    have product : 128^front.length * last.toNat ≤ 128^8 * 127 := Nat.mul_le_mul smaller (by omega)
    omega

-- A tenth byte of a signed number is all sign: 0x00 or 0x7f.
theorem signed_fits (whole : terminated bytes = true) (short : bytes.length ≤ 10) :
    (-2^63 ≤ signedValue bytes ∧ signedValue bytes < 2^63) ↔
      ¬ (bytes.length = 10 ∧ 0 < (bytes.getLastD 0).toNat ∧ (bytes.getLastD 0).toNat < 127) := by
  obtain ⟨front,last,rfl,_,stop⟩ := terminated_parts whole
  have low := unsignedValue_lt front
  have narrow : front.length ≤ 9 := by
    rw [List.length_append,List.length_singleton] at short
    exact Nat.le_of_succ_le_succ short
  have value : unsignedValue (front ++ [last]) = unsignedValue front + 128^front.length * last.toNat := by
    rw [unsignedValue_append,unsignedValue,unsignedValue,Nat.mod_eq_of_lt stop,Nat.mul_zero,Nat.add_zero]
  rw [signedValue,negative,value,List.getLastD_concat,List.length_append,List.length_singleton,
    Nat.mod_eq_of_lt stop]
  by_cases nine : front.length = 9
  · rw [nine] at low ⊢
    by_cases minus : 64 ≤ last.toNat
    · rw [if_pos (by simpa using minus)]
      omega
    · rw [if_neg (by simpa using minus)]
      omega
  · have smaller : 128^front.length ≤ 128^8 := Nat.pow_le_pow_right (by decide) (by omega)
    have product : 128^front.length * last.toNat ≤ 128^8 * 127 := Nat.mul_le_mul smaller (by omega)
    have wider : 128^(front.length+1) ≤ 128^9 := Nat.pow_le_pow_right (by decide) (by omega)
    by_cases minus : 64 ≤ last.toNat
    · rw [if_pos (by simpa using minus)]
      omega
    · rw [if_neg (by simpa using minus)]
      omega

-- Nine bytes that continue and a tenth that stops with one of these values.
def TenthByte (bad : Nat → Prop) (after : List UInt8) : Prop :=
  ∃ nine tenth rest, after = nine ++ tenth :: rest ∧ nine.length = 9 ∧ (∀ byte ∈ nine, 128 ≤ byte.toNat) ∧
    tenth.toNat < 128 ∧ bad tenth.toNat

theorem tenth_byte_iff (bad : Nat → Prop) (after : List UInt8) :
    (∀ bytes rest, after = bytes ++ rest → terminated bytes = true → bytes.length ≤ 10 →
      ¬ (bytes.length = 10 ∧ bad (bytes.getLastD 0).toNat)) ↔ ¬ TenthByte bad after := by
  constructor
  · rintro never ⟨nine,tenth,rest,split,width,continued,stop,here⟩
    refine never (nine ++ [tenth]) rest (by simpa using split) (terminated_append continued stop) (by simp [width]) ?_
    rw [List.getLastD_concat]
    exact ⟨by simp [width],here⟩
  · rintro never bytes rest split whole _ ⟨ten,here⟩
    obtain ⟨front,last,rfl,continued,stop⟩ := terminated_parts whole
    rw [List.getLastD_concat] at here
    exact never ⟨front,last,rest,by simpa using split,by simpa using ten,continued,stop,here⟩

theorem uleb128_inverts (before after : List UInt8) :
    Inverts readUleb128 unsignedValue (· < 2^64) before after ↔ ¬ TenthByte (1 < ·) after := by
  have words : ∀ bytes rest, terminated bytes = true → bytes.length ≤ 10 →
      readUleb128 (standing before (bytes ++ rest)) =
        .ok (some (unsignedValue bytes % 2^64,(standing before (bytes ++ rest)).advance bytes.length)) :=
    fun bytes rest whole short => (standing_stands before (bytes ++ rest)).uleb128_word whole short
  have exact : ∀ bytes, terminated bytes = true → bytes.length ≤ 10 →
      (unsignedValue bytes % 2^64 = unsignedValue bytes ↔ unsignedValue bytes < 2^64) :=
    fun bytes _ _ => ⟨fun same => by omega,fun fits => Nat.mod_eq_of_lt fits⟩
  refine (inverts_iff words ?_ exact).trans ?_
  · intro never
    rw [readUleb128,groups_none before after never]
    rfl
  · rw [← tenth_byte_iff]
    refine forall_congr' fun bytes => forall_congr' fun rest => forall_congr' fun _ => ?_
    exact forall_congr' fun whole => forall_congr' fun short => unsigned_fits whole short

theorem sleb128_inverts (before after : List UInt8) :
    Inverts readSleb128 signedValue (fun value => -2^63 ≤ value ∧ value < 2^63) before after ↔
      ¬ TenthByte (fun tenth => 0 < tenth ∧ tenth < 127) after := by
  have words : ∀ bytes rest, terminated bytes = true → bytes.length ≤ 10 →
      readSleb128 (standing before (bytes ++ rest)) =
        .ok (some (signedWord bytes,(standing before (bytes ++ rest)).advance bytes.length)) :=
    fun bytes rest whole short => (standing_stands before (bytes ++ rest)).sleb128_word whole short
  have exact : ∀ bytes, terminated bytes = true → bytes.length ≤ 10 →
      (signedWord bytes = signedValue bytes ↔ -2^63 ≤ signedValue bytes ∧ signedValue bytes < 2^63) := by
    intro bytes _ short
    refine ⟨fun same => ?_,fun fits => sign_extended bytes short fits.1 fits.2⟩
    rw [← same]
    exact toS64_range _
  refine (inverts_iff words ?_ exact).trans ?_
  · intro never
    rw [readSleb128,groups_none before after never]
    rfl
  · rw [← tenth_byte_iff]
    refine forall_congr' fun bytes => forall_congr' fun rest => forall_congr' fun _ => ?_
    exact forall_congr' fun whole => forall_congr' fun short => signed_fits whole short

-- Both readers invert the encoding exactly where no tenth byte has bits that
-- do not fit.
theorem leb128_inverts (before after : List UInt8) :
    (Inverts readUleb128 unsignedValue (· < 2^64) before after ↔ ¬ TenthByte (1 < ·) after) ∧
    (Inverts readSleb128 signedValue (fun value => -2^63 ≤ value ∧ value < 2^63) before after ↔
      ¬ TenthByte (fun tenth => 0 < tenth ∧ tenth < 127) after) :=
  ⟨uleb128_inverts before after,sleb128_inverts before after⟩

-- 2^64 in ten bytes is read as 0.
set_option maxRecDepth 20000 in
theorem leb128_does_not_invert :
    ¬ ((∀ before after, Inverts readUleb128 unsignedValue (· < 2^64) before after) ∧
      ∀ before after, Inverts readSleb128 signedValue (fun value => -2^63 ≤ value ∧ value < 2^63) before after) := by
  rintro ⟨unsigned,_⟩
  refine (uleb128_inverts [] (List.replicate 9 0x80 ++ [2])).mp (unsigned _ _) ?_
  exact ⟨List.replicate 9 0x80,2,[],rfl,rfl,by decide,by decide,by decide⟩

end LebReaders
