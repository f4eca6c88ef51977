import SecurePastebin.Core.Keyspace

/-!
# Counters of fixed windows

A counter is created by its first hit, is there until a fixed time after it,
and counts the hits in between.  The hits of one counter, in order, fall into
lifetimes: within one the counts are distinct, and two of them are more than
one window apart.
-/

namespace SecurePastebin.FixedWindow

/-- A count, and the last millisecond in which it is there. -/
structure Counter where
  count : ℕ
  expireAt : ℤ
  deriving DecidableEq

/-- What a hit at the instant `now` leaves. -/
def hit (window : ℤ) (counter : Option Counter) (now : ℤ) : Counter :=
  match counter with
  | some counter =>
      if Keyspace.Alive now counter.expireAt then ⟨counter.count + 1, counter.expireAt⟩
      else ⟨1, now + window⟩
  | none => ⟨1, now + window⟩

/-- One hit: its instant and what it left. -/
structure Hit where
  time : ℤ
  after : Counter
  deriving DecidableEq

/-- The hits so far, the newest first, and the counter they have led to. -/
inductive History (window : ℤ) : Option Counter → List Hit → Prop
  | nil : History window none []
  | cons {counter : Option Counter} {past : List Hit} {now : ℤ}
      (hpast : History window counter past) (hlater : ∀ earlier ∈ past, earlier.time ≤ now) :
      History window (some (hit window counter now)) (⟨now, hit window counter now⟩ :: past)

/-- Of two hits the later one belongs to the same lifetime and counts further,
or to a lifetime that ends more than a window later. -/
def Follows (window : ℤ) (later earlier : Hit) : Prop :=
  earlier.time ≤ later.time ∧
    (later.after.expireAt = earlier.after.expireAt ∧ earlier.after.count < later.after.count ∨
      earlier.after.expireAt + window < later.after.expireAt)

variable {window : ℤ} {counter : Option Counter} {past : List Hit}

/-- A hit counts on while the counter is there, and otherwise creates it anew. -/
theorem hit_cases (window : ℤ) (counter : Option Counter) (now : ℤ) :
    (∃ current, counter = some current ∧ now ≤ current.expireAt ∧
        hit window counter now = ⟨current.count + 1, current.expireAt⟩) ∨
      ((∀ current, counter = some current → current.expireAt < now) ∧
        hit window counter now = ⟨1, now + window⟩) := by
  cases counter with
  | none => exact .inr ⟨by simp, rfl⟩
  | some current =>
      by_cases halive : now ≤ current.expireAt
      · exact .inl ⟨current, rfl, halive, if_pos halive⟩
      · refine .inr ⟨?_, if_neg halive⟩
        rintro _ ⟨⟩
        exact not_le.mp halive

theorem count_hit_some (window : ℤ) (current : Counter) (now : ℤ) :
    (hit window (some current) now).count =
      (if now ≤ current.expireAt then current.count else 0) + 1 := by
  rw [hit]
  split_ifs <;> rfl

namespace History

/-- The counter is what the newest hit left. -/
theorem newest {current : Counter} (hhistory : History window (some current) past) :
    ∃ time rest, past = ⟨time, current⟩ :: rest := by
  cases hhistory
  exact ⟨_, _, rfl⟩

/-- A hit counts from one on, within the window its counter was created for. -/
theorem bounds (hhistory : History window counter past) (hwindow : 0 ≤ window) {found : Hit}
    (hfound : found ∈ past) :
    1 ≤ found.after.count ∧ found.time ≤ found.after.expireAt ∧
      found.after.expireAt ≤ found.time + window := by
  induction hhistory generalizing found with
  | nil => cases hfound
  | @cons counter past now hpast hlater ih =>
      rcases List.mem_cons.mp hfound with rfl | hfound
      · rcases hit_cases window counter now with ⟨current, rfl, halive, heq⟩ | ⟨-, heq⟩
        · obtain ⟨time, rest, rfl⟩ := hpast.newest
          obtain ⟨-, -, hexpire⟩ := ih List.mem_cons_self
          have hle : time ≤ now := hlater _ List.mem_cons_self
          dsimp only at hexpire
          rw [heq]
          exact ⟨by simp, halive, by dsimp only; omega⟩
        · rw [heq]
          exact ⟨le_rfl, by dsimp only; omega, le_rfl⟩
      · exact ih hfound

theorem pairwise (hhistory : History window counter past) (hwindow : 0 ≤ window) :
    past.Pairwise (Follows window) := by
  induction hhistory with
  | nil => exact .nil
  | @cons counter past now hpast hlater ih =>
      refine List.pairwise_cons.mpr ⟨fun earlier hearlier => ⟨hlater earlier hearlier, ?_⟩, ih⟩
      cases counter with
      | none =>
          cases hpast
          cases hearlier
      | some current =>
          obtain ⟨time, rest, rfl⟩ := hpast.newest
          -- where the earlier hit stands relative to the newest one before this
          have hbefore : earlier.after.expireAt = current.expireAt ∧
              earlier.after.count ≤ current.count ∨
              earlier.after.expireAt + window < current.expireAt := by
            rcases List.mem_cons.mp hearlier with rfl | hearlier
            · exact .inl ⟨rfl, le_rfl⟩
            · rcases (List.rel_of_pairwise_cons ih hearlier).2 with ⟨hsame, hcount⟩ | hless
              · exact .inl ⟨hsame.symm, hcount.le⟩
              · exact .inr hless
          rcases hit_cases window (some current) now with ⟨_, ⟨⟩, -, heq⟩ | ⟨hexpired, heq⟩
          · rw [heq]
            dsimp only
            omega
          · have hexpired := hexpired current rfl
            rw [heq]
            dsimp only
            omega

/-- A hit's count is its place among the hits of the lifetime that is not over. -/
theorem count_hit (hhistory : History window counter past) {now : ℤ}
    (hlater : ∀ earlier ∈ past, earlier.time ≤ now) :
    (hit window counter now).count =
      (past.filter fun found => now ≤ found.after.expireAt).length + 1 := by
  induction hhistory with
  | nil => rfl
  | @cons counter past time hpast hbefore ih =>
      have hnow : time ≤ now := hlater _ List.mem_cons_self
      have hrest := ih fun earlier hearlier => hlater earlier (List.mem_cons_of_mem _ hearlier)
      rcases hit_cases window counter time with ⟨current, rfl, -, heq⟩ | ⟨hexpired, heq⟩
      · rw [heq, count_hit_some]
        rw [count_hit_some] at hrest
        by_cases halive : now ≤ current.expireAt
        · rw [if_pos halive] at hrest ⊢
          rw [List.filter_cons_of_pos (by simpa using halive), List.length_cons, hrest]
        · rw [if_neg halive] at hrest ⊢
          rw [List.filter_cons_of_neg (by simpa using halive), hrest]
      · -- whatever was counted before this lifetime was over when it began
        have hgone : (hit window counter now).count = 1 := by
          rcases hit_cases window counter now with ⟨current, hcurrent, halive, -⟩ | ⟨-, hfresh⟩
          · have := hexpired current hcurrent
            omega
          · rw [hfresh]
        rw [heq, count_hit_some]
        by_cases halive : now ≤ time + window
        · rw [if_pos halive, List.filter_cons_of_pos (by simpa using halive), List.length_cons,
            ← hrest, hgone]
        · rw [if_neg halive, List.filter_cons_of_neg (by simpa using halive), ← hrest, hgone]

/-- The hits so far determine the counter. -/
theorem counter_eq (hhistory : History window counter past) :
    counter = past.head?.map fun newest => newest.after := by
  cases hhistory <;> rfl

/-- The oldest of some hits is one on the counter there was before them. -/
theorem oldest_after {other : Option Counter} {older : List Hit} {oldest : Hit}
    (hhistory : History window counter (older ++ oldest :: past))
    (hother : History window other past) : oldest.after = hit window other oldest.time := by
  induction older generalizing counter with
  | nil =>
      generalize hnew : [] ++ oldest :: past = hits at hhistory
      cases hhistory with
      | nil => cases hnew
      | cons hpast _ =>
          cases hnew
          rw [hpast.counter_eq, hother.counter_eq]
  | cons newest older ih =>
      generalize hnew : newest :: older ++ oldest :: past = hits at hhistory
      cases hhistory with
      | nil => cases hnew
      | cons hpast _ =>
          cases hnew
          exact ih hpast

/-- The hits of one window's length from an instant on at which there was no
counter are of one lifetime. -/
theorem expireAt_of_absent {other : Option Counter} {recent : List Hit}
    (hhistory : History window counter (recent ++ past)) (hwindow : 0 ≤ window)
    (hother : History window other past) {first last : ℤ}
    (habsent : ∀ current, other = some current → current.expireAt < first)
    (hshort : last - first ≤ window)
    (htimes : ∀ found ∈ recent, first ≤ found.time ∧ found.time ≤ last) :
    ∃ expireAt, ∀ found ∈ recent, found.after.expireAt = expireAt := by
  rcases List.eq_nil_or_concat recent with rfl | ⟨older, oldest, rfl⟩
  · exact ⟨0, by simp⟩
  rw [List.concat_eq_append] at hhistory htimes ⊢
  rw [List.append_assoc, List.singleton_append] at hhistory
  have hfirst := htimes oldest (by simp)
  -- the oldest hit has found no counter
  have hcreated : oldest.after.expireAt = oldest.time + window := by
    rw [hhistory.oldest_after hother]
    rcases hit_cases window other oldest.time with ⟨current, hcurrent, halive, -⟩ | ⟨-, heq⟩
    · have := habsent current hcurrent
      omega
    · rw [heq]
  refine ⟨oldest.after.expireAt, fun found hfound => ?_⟩
  rcases List.mem_append.mp hfound with holder | holdest
  · have hfollows := (List.pairwise_append.mp (hhistory.pairwise hwindow)).2.2 found holder oldest
      (by simp)
    have hmem : found ∈ older ++ oldest :: past := by simp [holder]
    have hbounds := hhistory.bounds hwindow hmem
    have hlast := htimes found hfound
    rcases hfollows.2 with ⟨hsame, -⟩ | hless
    · exact hsame
    · omega
  · rw [List.mem_singleton.mp holdest]

end History

/-! ## Bounds on accepted hits -/

/-- Hits of one lifetime with counts from 1 to `limit` are at most `limit`. -/
theorem length_le_of_lifetime {hits : List Hit} (hpairwise : hits.Pairwise (Follows window))
    (hwindow : 0 ≤ window) {limit : ℕ} (expireAt : ℤ)
    (hhits : ∀ found ∈ hits, found.after.expireAt = expireAt ∧ 1 ≤ found.after.count ∧
      found.after.count ≤ limit) : hits.length ≤ limit := by
  have hnodup : (hits.map fun found => found.after.count).Nodup := by
    rw [List.Nodup, List.pairwise_map]
    refine hpairwise.imp_of_mem fun hlater hearlier hfollows => ?_
    have hsame := (hhits _ hlater).1
    have hsame' := (hhits _ hearlier).1
    rcases hfollows.2 with ⟨-, hcount⟩ | hless
    · exact hcount.ne'
    · omega
  have hsubset : (hits.map fun found => found.after.count).toFinset ⊆ Finset.Icc 1 limit := by
    intro count hcount
    simp only [List.mem_toFinset, List.mem_map] at hcount
    obtain ⟨found, hfound, rfl⟩ := hcount
    exact Finset.mem_Icc.mpr (hhits found hfound).2
  calc hits.length = (hits.map fun found => found.after.count).toFinset.card := by
        rw [List.toFinset_card_of_nodup hnodup, List.length_map]
    _ ≤ (Finset.Icc 1 limit).card := Finset.card_le_card hsubset
    _ = limit := by simp

/-- Lifetimes that end within less than a window of each other are the same. -/
theorem expireAt_eq_of_near {hits : List Hit} (hpairwise : hits.Pairwise (Follows window))
    {first last : ℤ} (hshort : last - first ≤ window)
    (hnear : ∀ found ∈ hits, first < found.after.expireAt ∧ found.after.expireAt < last)
    {one other : Hit} (hone : one ∈ hits) (hother : other ∈ hits) :
    one.after.expireAt = other.after.expireAt := by
  let same : Hit → Hit → Prop := fun later earlier => later.after.expireAt = earlier.after.expireAt
  have : Std.Symm same := ⟨fun _ _ heq => heq.symm⟩
  have hsame : hits.Pairwise same := by
    refine hpairwise.imp_of_mem fun hlater hearlier hfollows => ?_
    have := hnear _ hlater
    have := hnear _ hearlier
    rcases hfollows.2 with ⟨hsame, -⟩ | hless
    · exact hsame
    · omega
  exact List.Pairwise.forall_of_forall (R := same) (fun _ _ => rfl) hsame hone hother

/-- Hits within one window's length belong to at most two lifetimes. -/
theorem length_le_of_interval {hits : List Hit} (hpairwise : hits.Pairwise (Follows window))
    (hwindow : 0 ≤ window) {limit : ℕ} {first last : ℤ} (hshort : last - first ≤ window)
    (hhits : ∀ found ∈ hits, first ≤ found.time ∧ found.time ≤ last ∧
      1 ≤ found.after.count ∧ found.after.count ≤ limit ∧ found.time < found.after.expireAt ∧
      found.after.expireAt ≤ found.time + window) : hits.length ≤ 2 * limit := by
  cases hits with
  | nil => simp
  | cons newest rest =>
      let isCurrent : Hit → Bool := fun found => found.after.expireAt = newest.after.expireAt
      have hcurrent : ((newest :: rest).filter isCurrent).length ≤ limit := by
        refine length_le_of_lifetime (hpairwise.filter _) hwindow newest.after.expireAt ?_
        intro found hfound
        rw [List.mem_filter] at hfound
        obtain ⟨-, -, hcount, hlimit, -⟩ := hhits found hfound.1
        exact ⟨of_decide_eq_true hfound.2, hcount, hlimit⟩
      -- the others end more than a window before the newest lifetime does
      have hnear : ∀ found ∈ (newest :: rest).filter (fun found => !isCurrent found),
          first < found.after.expireAt ∧ found.after.expireAt < last := by
        intro found hfound
        obtain ⟨hfound, hother⟩ := List.mem_filter.mp hfound
        obtain ⟨hfirst, -, -, -, hbefore, -⟩ := hhits found hfound
        obtain ⟨-, hlast, -, -, -, hreach⟩ := hhits newest List.mem_cons_self
        have hne : found.after.expireAt ≠ newest.after.expireAt := by simpa [isCurrent] using hother
        rcases List.mem_cons.mp hfound with rfl | hfound
        · exact absurd rfl hne
        · rcases (List.rel_of_pairwise_cons hpairwise hfound).2 with ⟨hsame, -⟩ | hless
          · exact absurd hsame.symm hne
          · omega
      have hold : ((newest :: rest).filter fun found => !isCurrent found).length ≤ limit := by
        rcases hempty : (newest :: rest).filter (fun found => !isCurrent found) with _ | ⟨latest, older⟩
        · simp
        · rw [← hempty]
          have hlatest : latest ∈ (newest :: rest).filter (fun found => !isCurrent found) := by
            simp [hempty]
          refine length_le_of_lifetime (hpairwise.filter _) hwindow latest.after.expireAt ?_
          intro found hfound
          obtain ⟨-, -, hcount, hlimit, -⟩ := hhits found (List.mem_filter.mp hfound).1
          exact ⟨expireAt_eq_of_near (hpairwise.filter _) hshort hnear hfound hlatest, hcount, hlimit⟩
      have hsplit := List.length_eq_length_filter_add (l := newest :: rest) isCurrent
      omega

end SecurePastebin.FixedWindow
