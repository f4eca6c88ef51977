import SecurePastebin.Config.Numbers
import SecurePastebin.Core.JsonString
import SecurePastebin.Paste.Verification
import SecurePastebin.Web.Handlers

/-!
# Submitting a paste

What `POST /pastes` makes of the bytes of its body: `maxBody` bounds them,
`decodeJSON` finds the members, and `Canonicalize` is given the content.
-/

namespace SecurePastebin.Web

open Text Utf8 Json Paste
open Calendar
open Store.Bodies (foldName decodeString decodeInt)

/-! ## The size limit -/

theorem parseSize_range {text : Bytes} {size : ℤ}
    (hsize : Configuration.parseSize text = some size) :
    0 < size ∧ size ≤ Configuration.maxPasteSizeHardCap := by
  unfold Configuration.parseSize at hsize
  split at hsize
  · cases hsize
  · split at hsize
    · cases hsize
    · dsimp only at hsize
      rw [Option.ite_none_left_eq_some, Option.some.injEq] at hsize
      obtain ⟨hrange, rfl⟩ := hsize
      push Not at hrange
      exact hrange

theorem pasteMaxSize_of_load {env : Configuration.Environment} {c : Configuration.Config}
    (hload : Configuration.load env = .ok c) :
    0 < c.pasteMaxSize ∧ c.pasteMaxSize ≤ Configuration.maxPasteSizeHardCap := by
  obtain ⟨hnone, rfl⟩ := Configuration.load_eq_ok env hload
  rw [Configuration.Environment.problems, List.flatten_eq_nil_iff] at hnone
  have hsection : env.pasteMaxSize.errs = [] := hnone _ (by simp)
  rw [Configuration.Environment.config]
  unfold Configuration.Environment.pasteMaxSize at hsection ⊢
  generalize hsize : Configuration.parseSize _ = size at hsection ⊢
  cases size with
  | none => simp [Configuration.problem] at hsection
  | some size => exact parseSize_range hsize

/-- The limit `maxBody` is given, an `int64`. -/
def createLimit (c : Configuration.Config) : ℤ := wrap64 (6 * c.pasteMaxSize + smallBody)

theorem createLimit_of_load {env : Configuration.Environment} {c : Configuration.Config}
    (hload : Configuration.load env = .ok c) :
    createLimit c = 6 * c.pasteMaxSize + 65536 := by
  obtain ⟨hpos, hcap⟩ := pasteMaxSize_of_load hload
  simp only [Configuration.maxPasteSizeHardCap] at hcap
  simp only [createLimit, smallBody, wrap64]
  omega

/-! ## The members -/

/-- The members of a submission. -/
def submission (content password : Bytes) (ttl : ℤ) (challengeToken : Bytes) :
    List (Bytes × Value) :=
  [(ascii "content", .string content), (ascii "password", .string password),
    (ascii "ttl_seconds", .number (formatInt ttl)),
    (ascii "challenge_token", .string challengeToken)]

theorem length_formatInt_le {value : ℤ} (hfits : FitsInt64 value) :
    (formatInt value).length ≤ 20 := by
  unfold FitsInt64 at hfits
  have hdigits : (padded 1 value.natAbs).length ≤ 19 := by
    have hlength : (Nat.digits 10 value.natAbs).length ≤ 19 :=
      (Nat.digits_length_le_iff (by omega) _).mpr (by omega)
    simp only [padded, List.length_append, List.length_replicate, List.length_map,
      List.length_reverse]
    omega
  unfold formatInt appendInt
  split
  · simp only [List.length_cons]
    omega
  · omega

/-- Steps that set the content at its member, and only there. -/
private theorem foldlM_content {full : List (Bytes × Value)} {content : Bytes}
    {step : CreateBody → Bytes × Value → Option CreateBody}
    (hstep : ∀ input, ∀ member ∈ full, ∃ after, step input member = some after ∧
      (member.1 = ascii "content" ∧ after.content = content ∨
        member.1 ≠ ascii "content" ∧ after.content = input.content))
    {members : List (Bytes × Value)} (hmembers : ∀ member ∈ members, member ∈ full)
    (input : CreateBody) :
    ∃ last, members.foldlM step input = some last ∧ (last.content = content ∨
      last.content = input.content ∧ ∀ member ∈ members, member.1 ≠ ascii "content") := by
  induction members generalizing input with
  | nil => exact ⟨input, rfl, .inr ⟨rfl, by simp⟩⟩
  | cons member members ih =>
      obtain ⟨after, hafter, hset⟩ := hstep input member (hmembers member List.mem_cons_self)
      obtain ⟨last, hlast, hcontent⟩ :=
        ih (fun other hother => hmembers other (List.mem_cons_of_mem _ hother)) after
      refine ⟨last, by rw [List.foldlM_cons, hafter]; exact hlast, ?_⟩
      rcases hcontent with hdone | ⟨hkept, hnone⟩
      · exact .inl hdone
      · rcases hset with ⟨_, hwritten⟩ | ⟨hname, hsame⟩
        · exact .inl (hkept.trans hwritten)
        · refine .inr ⟨hkept.trans hsame, fun other hother => ?_⟩
          rcases List.mem_cons.mp hother with rfl | hother
          · exact hname
          · exact hnone other hother

/-- Whatever the order of the members, the content is the one that was written. -/
theorem createBody_submission {content password challengeToken : Bytes} {ttl : ℤ}
    (hfits : FitsInt64 ttl) {members : List (Bytes × Value)}
    (hmembers : members.Perm (submission content password ttl challengeToken)) :
    ∃ input, createBody (.value (.object members)) = some input ∧ input.content = content := by
  have hfold : foldName (ascii "content") = ascii "content" ∧
      foldName (ascii "password") = ascii "password" ∧
      foldName (ascii "ttl_seconds") = ascii "ttl_seconds" ∧
      foldName (ascii "challenge_token") = ascii "challenge_token" := by decide +kernel
  have hnames : ascii "password" ≠ ascii "content" ∧ ascii "ttl_seconds" ≠ ascii "content" ∧
      ascii "challenge_token" ≠ ascii "content" ∧ ascii "ttl_seconds" ≠ ascii "password" ∧
      ascii "challenge_token" ≠ ascii "password" ∧
      ascii "challenge_token" ≠ ascii "ttl_seconds" := by decide +kernel
  obtain ⟨hfold1, hfold2, hfold3, hfold4⟩ := hfold
  obtain ⟨hne1, hne2, hne3, hne4, hne5, hne6⟩ := hnames
  have hread := parseInt64_formatInt hfits
  have hsubset : ∀ member ∈ members, member ∈ submission content password ttl challengeToken :=
    fun member hmember => hmembers.mem_iff.mp hmember
  obtain ⟨input, hinput, hcontent⟩ : ∃ input, createBody (.value (.object members)) = some input ∧
      (input.content = content ∨
        input.content = [] ∧ ∀ member ∈ members, member.1 ≠ ascii "content") := by
    refine foldlM_content (fun input member hmember => ?_) hsubset ⟨[], [], 0, []⟩
    simp only [submission, List.mem_cons, List.not_mem_nil, or_false] at hmember
    rcases hmember with rfl | rfl | rfl | rfl
    · exact ⟨{ input with content := content }, by simp only [hfold1, if_true, decodeString, Option.map_some], .inl ⟨rfl, rfl⟩⟩
    · exact ⟨{ input with password := password }, by simp only [hfold2, hne1, if_true, if_false, decodeString, Option.map_some],
        .inr ⟨hne1, rfl⟩⟩
    · exact ⟨{ input with ttlSeconds := ttl }, by simp only [hfold3, hne2, hne4, if_true, if_false, decodeInt, hread,
        Option.map_some], .inr ⟨hne2, rfl⟩⟩
    · exact ⟨{ input with challengeToken := challengeToken }, by simp only [hfold4, hne3, hne5, hne6, if_true, if_false, decodeString,
        Option.map_some], .inr ⟨hne3, rfl⟩⟩
  refine ⟨input, hinput, hcontent.resolve_right fun hnone => ?_⟩
  have hmem : (ascii "content", Value.string content) ∈ members :=
    hmembers.mem_iff.mpr (by simp [submission])
  exact hnone.2 _ hmem rfl

/-- The cap on the body refuses no admissible paste. -/
theorem create_within_limit {env : Configuration.Environment} {c : Configuration.Config}
    (hload : Configuration.load env = .ok c) {content password challengeToken : Bytes} {ttl : ℤ}
    (hvalid : valid content = true)
    (hsize : ((if hasBOM content then content else BOM ++ content).length : ℤ) ≤ c.pasteMaxSize)
    (hpassword : runeCount password ≤ 128) (htoken : runeCount challengeToken ≤ 64)
    (hfits : FitsInt64 ttl)
    {members : List (Bytes × Value)} {body : Bytes}
    (hmembers : members.Perm (submission content password ttl challengeToken))
    (hbody : WrittenObject members body) :
    createLimit c = 6 * c.pasteMaxSize + 65536 ∧ (body.length : ℤ) ≤ createLimit c ∧
      ∃ value input canonical, parse body = some value ∧
        createBody (.value value) = some input ∧ input.content = content ∧
        canonicalize input.content c.limits.maxSize = .ok canonical := by
  have hlimit := createLimit_of_load hload
  refine ⟨hlimit, ?_, ?_⟩
  · have hlength := hbody.length_le
    rw [(hmembers.map memberBound).sum_eq] at hlength
    have hcontent : (content.length : ℤ) ≤ c.pasteMaxSize := by
      refine le_trans ?_ hsize
      split
      · exact le_rfl
      · rw [List.length_append]
        omega
    have hnumber := length_formatInt_le hfits
    have hnames : (ascii "content").length = 7 ∧ (ascii "password").length = 8 ∧
        (ascii "ttl_seconds").length = 11 ∧ (ascii "challenge_token").length = 15 := by
      decide +kernel
    obtain ⟨hname1, hname2, hname3, hname4⟩ := hnames
    simp only [submission, List.map_cons, List.map_nil, List.sum_cons, List.sum_nil, memberBound,
      valueBound, hname1, hname2, hname3, hname4] at hlength
    omega
  · obtain ⟨input, hinput, heq⟩ := createBody_submission hfits hmembers
    refine ⟨_, input, if hasBOM content then content else BOM ++ content,
      parse_of_written hbody, hinput, heq, ?_⟩
    rw [heq]
    have hfits : ¬ ((if hasBOM content then content else BOM ++ content).length : ℤ) >
        c.limits.maxSize := not_lt.mpr hsize
    unfold canonicalize
    cases hbom : hasBOM content <;> simp_all

namespace Sample

/-- One way to write a submission. -/
def written : Bytes :=
  ascii "\x7b\"content\":\"hi\",\"password\":\"\",\"ttl_seconds\":60,\"challenge_token\":\"\"\x7d"

theorem writtenObject_written : WrittenObject (submission (ascii "hi") [] 60 []) written := by
  have hcontent : Written (ascii "content") _ := written_ascii (by decide +kernel)
  have hpassword : Written (ascii "password") _ := written_ascii (by decide +kernel)
  have httl : Written (ascii "ttl_seconds") _ := written_ascii (by decide +kernel)
  have htoken : Written (ascii "challenge_token") _ := written_ascii (by decide +kernel)
  have htext : Written (ascii "hi") _ := written_ascii (by decide +kernel)
  have hmembers := WrittenMembers.cons hcontent (.string htext) (.cons hpassword (.string .nil)
    (.cons httl (.number 60) (.last htoken (.string .nil))))
  exact ⟨_, hmembers, by decide +kernel⟩

end Sample

/-- A small submission passes under an accepted configuration. -/
theorem create_within_limit_sample :
    ∃ c, Configuration.load Configuration.Sample.fitting = .ok c ∧
      (Sample.written.length : ℤ) ≤ createLimit c := by
  exact ⟨_, Configuration.Sample.load_fitting,
    (create_within_limit Configuration.Sample.load_fitting (by decide +kernel) (by decide +kernel)
    (by decide) (by decide) (by decide) (List.Perm.refl _)
    Sample.writtenObject_written).2.1⟩

end SecurePastebin.Web
