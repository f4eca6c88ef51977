import SecurePastebin.Core.Calendar

/-!
# A keyspace with expiry

Keys hold a value and the instant at which they expire.  Expiry is counted in
whole milliseconds: a key is there up to the millisecond of that instant, this one
included, and reads as absent afterwards.  A relative time to live is sent in whole
milliseconds and counts from the instant at which the command is executed.
-/

namespace SecurePastebin

open Text Calendar

structure Keyspace.Entry (Value : Type) where
  value : Value
  expireAt : ℤ

/-- The last write to each key, expired or not. -/
abbrev Keyspace (Value : Type) := Bytes → Option (Keyspace.Entry Value)

namespace Keyspace

variable {Value : Type}

/-- What expires in the millisecond `expireAt` is there in the millisecond `now`. -/
abbrev Alive (now expireAt : ℤ) : Prop := now ≤ expireAt

/-- The entry under `key` at instant `now`. -/
def find (keys : Keyspace Value) (now : ℤ) (key : Bytes) : Option (Entry Value) :=
  (keys key).filter fun entry => Alive (millis now) (millis entry.expireAt)

def set (keys : Keyspace Value) (key : Bytes) (entry : Entry Value) : Keyspace Value :=
  Function.update keys key (some entry)

def del (keys : Keyspace Value) (key : Bytes) : Keyspace Value :=
  Function.update keys key none

/-- Expiry of a key written at `now` with a relative time to live. -/
def expiry (now ttl : ℤ) : ℤ := now + truncate ttl millisecond

@[simp]
theorem set_self (keys : Keyspace Value) (key : Bytes) (entry : Entry Value) :
    set keys key entry key = some entry := Function.update_self ..

theorem set_of_ne (keys : Keyspace Value) {key other : Bytes} (entry : Entry Value)
    (hne : other ≠ key) : set keys key entry other = keys other :=
  Function.update_of_ne hne ..

@[simp]
theorem del_self (keys : Keyspace Value) (key : Bytes) : del keys key key = none :=
  Function.update_self ..

theorem del_of_ne (keys : Keyspace Value) {key other : Bytes} (hne : other ≠ key) :
    del keys key other = keys other :=
  Function.update_of_ne hne ..

section Find

variable {keys : Keyspace Value} {now later : ℤ} {key : Bytes} {entry : Entry Value}

theorem find_eq_some_iff : find keys now key = some entry ↔
    keys key = some entry ∧ Alive (millis now) (millis entry.expireAt) := by
  simp [find, Option.filter_eq_some_iff]

theorem find_eq_none_iff : find keys now key = none ↔
    ∀ entry, keys key = some entry → ¬ Alive (millis now) (millis entry.expireAt) := by
  simp [find, Option.filter_eq_none_iff]

theorem find_of_le (hkey : keys key = some entry) (hle : now ≤ entry.expireAt) :
    find keys now key = some entry :=
  find_eq_some_iff.mpr ⟨hkey, millis_le_millis hle⟩

theorem find_eq_none_of_le (hle : now ≤ later) (hnone : find keys now key = none) :
    find keys later key = none := by
  rw [find_eq_none_iff] at hnone ⊢
  exact fun entry hkey halive => hnone entry hkey ((millis_le_millis hle).trans halive)

/-- What is absent has expired. -/
theorem expireAt_lt (hkey : keys key = some entry) (hnone : find keys now key = none) :
    entry.expireAt < now := by
  by_contra hle
  rw [find_of_le hkey (not_lt.mp hle)] at hnone
  cases hnone

end Find

/-- A key without a value reads as absent at any time. -/
theorem find_eq_none {keys : Keyspace Value} {key : Bytes} (hkey : keys key = none) (now : ℤ) :
    find keys now key = none := by
  simp [find, hkey]

theorem eq_some_of_del {keys : Keyspace Value} {key other : Bytes} {entry : Entry Value}
    (hentry : del keys key other = some entry) : keys other = some entry := by
  by_cases heq : other = key
  · rw [heq, del_self] at hentry
    cases hentry
  · rwa [del_of_ne keys heq] at hentry

/-- Deleting never adds an entry. -/
theorem del_eq_none_of_eq_none {keys : Keyspace Value} {key other : Bytes}
    (hother : keys other = none) : del keys key other = none := by
  by_cases heq : other = key
  · rw [heq, del_self]
  · rw [del_of_ne keys heq, hother]

/-! ## Keyspaces with the same keys -/

/-- The same keys with the same expiry, whatever they hold. -/
def SameTimes (left right : Keyspace Value) : Prop :=
  ∀ key, (left key).map Entry.expireAt = (right key).map Entry.expireAt

variable {left right : Keyspace Value}

theorem SameTimes.find (hsame : SameTimes left right) (now : ℤ) (key : Bytes) :
    (left.find now key = none ∧ right.find now key = none) ∨
      ∃ entry entry', left.find now key = some entry ∧ right.find now key = some entry' := by
  have htimes := hsame key
  cases hleft : left key with
  | none =>
      rw [hleft] at htimes
      have hright := Option.map_eq_none_iff.mp htimes.symm
      exact .inl ⟨find_eq_none hleft now, find_eq_none hright now⟩
  | some entry =>
      rw [hleft] at htimes
      obtain ⟨entry', hright, htime⟩ := Option.map_eq_some_iff.mp htimes.symm
      by_cases hlive : Alive (millis now) (millis entry.expireAt)
      · refine .inr ⟨entry, entry', find_eq_some_iff.mpr ⟨hleft, hlive⟩,
          find_eq_some_iff.mpr ⟨hright, ?_⟩⟩
        rwa [htime]
      · refine .inl ⟨?_, ?_⟩
        · simpa [Keyspace.find, hleft] using hlive
        · simpa [Keyspace.find, hright, htime] using hlive

theorem SameTimes.set (hsame : SameTimes left right) (key : Bytes) {entry entry' : Entry Value}
    (htime : entry.expireAt = entry'.expireAt) :
    SameTimes (left.set key entry) (right.set key entry') := by
  intro other
  by_cases heq : other = key
  · simp [heq, htime]
  · simpa [set_of_ne _ _ heq] using hsame other

theorem SameTimes.del (hsame : SameTimes left right) (key : Bytes) :
    SameTimes (left.del key) (right.del key) := by
  intro other
  by_cases heq : other = key
  · simp [heq]
  · simpa [del_of_ne _ heq] using hsame other

end Keyspace

end SecurePastebin
