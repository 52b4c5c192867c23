import ShardManager.EtcdKeys

open etcd

namespace etcdkeys

variable {pre ns : String}

/-- The first path segment and the rest of a path are determined by it. -/
theorem segment_inj {a b rest rest' : List Char} (ha : '/' ∉ a) (hb : '/' ∉ b)
    (h : a ++ '/' :: rest = b ++ '/' :: rest') : a = b ∧ rest = rest' := by
  have hsplit := congrArg (List.splitOn '/') h
  rw [List.splitOn_append_cons_self_of_not_mem ha, List.splitOn_append_cons_self_of_not_mem hb] at hsplit
  have hab : a = b := (List.cons.inj hsplit).1
  subst hab
  exact ⟨rfl, (List.cons.inj (List.append_cancel_left h)).2⟩

/-- A path segment that ends in a slash does not end inside a name. -/
theorem segment_prefix_iff {segment path name : List Char} (hname : '/' ∉ name) :
    segment ++ ['/'] <+: path ++ '/' :: name ↔ segment ++ ['/'] <+: path ++ ['/'] := by
  have hpath : path ++ ['/'] <+: path ++ '/' :: name := ⟨name, by simp⟩
  constructor
  · intro h
    rcases List.prefix_or_prefix_of_prefix h hpath with hshort | ⟨rest, hrest⟩
    · exact hshort
    · rcases List.eq_nil_or_concat rest with rfl | ⟨rest, last, rfl⟩
      · exact ⟨[], by rw [List.append_nil, ← hrest, List.append_nil]⟩
      · rw [List.concat_eq_append, ← List.append_assoc] at hrest
        obtain ⟨-, hlast⟩ := List.append_inj' hrest rfl
        cases hlast
        obtain ⟨tail, htail⟩ := h
        refine absurd ?_ hname
        rw [← hrest] at htail
        have hcancel : rest ++ '/' :: tail = name := by simpa using htail
        rw [← hcancel]
        simp
  · intro h
    exact h.trans hpath

/-- The last path segment and what precedes it are determined by a path. -/
theorem last_segment_inj {a b last last' : List Char} (hlast : '/' ∉ last) (hlast' : '/' ∉ last')
    (h : a ++ '/' :: last = b ++ '/' :: last') : a = b ∧ last = last' := by
  have hrev : last.reverse ++ '/' :: a.reverse = last'.reverse ++ '/' :: b.reverse := by
    have hrev := congrArg List.reverse h
    simpa using hrev
  obtain ⟨hl, ha⟩ := segment_inj (by simpa using hlast) (by simpa using hlast') hrev
  exact ⟨List.reverse_injective ha, List.reverse_injective hl⟩

theorem hasPrefix_executorsPrefix_key (executorID : String) (kt : ExecutorKeyType) :
    hasPrefix (buildExecutorKey pre ns executorID kt) (buildExecutorsPrefix pre ns) = true := by
  rw [hasPrefix_iff, toList_buildExecutorKey]
  exact List.prefix_append _ _

/-- The keys of one executor are keys of executors. -/
theorem hasPrefix_executorsPrefix_of_executorID {executorID key : String}
    (h : hasPrefix key (buildExecutorIDPrefix pre ns executorID) = true) :
    hasPrefix key (buildExecutorsPrefix pre ns) = true := by
  rw [hasPrefix_iff, buildExecutorIDPrefix, String.toList_append, String.toList_append] at h
  rw [hasPrefix_iff]
  exact ((List.prefix_append _ _).trans (List.prefix_append _ _)).trans h

/-- Executor keys do not clash, whatever the identifiers. -/
theorem buildExecutorKey_inj {executorID executorID' : String} {kt kt' : ExecutorKeyType}
    (hkt : kt.Known) (hkt' : kt'.Known)
    (h : buildExecutorKey pre ns executorID kt = buildExecutorKey pre ns executorID' kt') :
    executorID = executorID' ∧ kt = kt' := by
  have hlist := congrArg String.toList h
  rw [toList_buildExecutorKey, toList_buildExecutorKey] at hlist
  obtain ⟨hid, hname⟩ := last_segment_inj (ExecutorKeyType.slashFree_name hkt)
    (ExecutorKeyType.slashFree_name hkt') (List.append_cancel_left hlist)
  refine ⟨String.toList_injective hid, ?_⟩
  rw [← ExecutorKeyType.ofName_name hkt, ← ExecutorKeyType.ofName_name hkt',
    String.toList_injective hname]

/-- A metadata key has one segment too many to be another key of an executor. -/
theorem buildExecutorKey_ne_buildMetadataKey {executorID : String} {kt : ExecutorKeyType}
    (hid : SlashFree executorID) (hkt : kt.Known) (executorID' metadataKey : String) :
    buildExecutorKey pre ns executorID kt ≠ buildMetadataKey pre ns executorID' metadataKey := by
  intro h
  have hlist := congrArg String.toList h
  rw [toList_buildExecutorKey, toList_buildMetadataKey] at hlist
  have hname : '/' ∉ kt.name.toList := ExecutorKeyType.slashFree_name hkt
  have hrest := ((List.append_cons_inj_of_notMem hid hname).mp (List.append_cancel_left hlist)).2.2
  rw [hrest] at hname
  simp at hname

theorem buildMetadataKey_inj {executorID executorID' metadataKey metadataKey' : String}
    (hid : SlashFree executorID) (hid' : SlashFree executorID')
    (h : buildMetadataKey pre ns executorID metadataKey = buildMetadataKey pre ns executorID' metadataKey') :
    executorID = executorID' ∧ metadataKey = metadataKey' := by
  have hlist := congrArg String.toList h
  rw [toList_buildMetadataKey, toList_buildMetadataKey] at hlist
  obtain ⟨heq, hrest⟩ := segment_inj hid hid' (List.append_cancel_left hlist)
  have hkey := (segment_inj (by decide) (by decide) hrest).2
  exact ⟨String.toList_injective heq, String.toList_injective hkey⟩

/-- The prefix of one executor holds no key of another. -/
theorem hasPrefix_executorID_iff {executorID executorID' rest : String}
    (hid : SlashFree executorID) (hid' : SlashFree executorID') :
    hasPrefix (buildExecutorIDPrefix pre ns executorID ++ rest) (buildExecutorIDPrefix pre ns executorID') =
      true ↔ executorID' = executorID := by
  constructor
  · intro h
    obtain ⟨tail, htail⟩ := hasPrefix_iff.mp h
    have hlist : executorID'.toList ++ '/' :: tail = executorID.toList ++ '/' :: rest.toList := by
      simpa [buildExecutorIDPrefix] using htail
    exact String.toList_injective (segment_inj hid' hid hlist).1
  · rintro rfl
    exact hasPrefix_append _ _

theorem hasPrefix_buildExecutorKey_iff {executorID executorID' : String} {kt : ExecutorKeyType}
    (hid : SlashFree executorID) (hid' : SlashFree executorID') :
    hasPrefix (buildExecutorKey pre ns executorID kt) (buildExecutorIDPrefix pre ns executorID') = true ↔
      executorID' = executorID :=
  hasPrefix_executorID_iff hid hid'

theorem hasPrefix_buildMetadataKey_iff {executorID executorID' metadataKey : String}
    (hid : SlashFree executorID) (hid' : SlashFree executorID') :
    hasPrefix (buildMetadataKey pre ns executorID metadataKey) (buildExecutorIDPrefix pre ns executorID') =
      true ↔ executorID' = executorID := by
  have hkey : buildMetadataKey pre ns executorID metadataKey =
      buildExecutorIDPrefix pre ns executorID ++ ("metadata" ++ "/" ++ metadataKey) := by
    simp [buildMetadataKey, buildExecutorKey, ExecutorKeyType.name, String.append_assoc]
  rw [hkey]
  exact hasPrefix_executorID_iff hid hid'

/-- Directories of a namespace of which neither is a prefix of the other share
no key. -/
theorem not_hasPrefix_of_dir {dir dir' key : String} (h : ¬dir.toList <+: dir'.toList)
    (h' : ¬dir'.toList <+: dir.toList) (hkey : hasPrefix key (buildNamespacePrefix pre ns ++ dir) = true) :
    hasPrefix key (buildNamespacePrefix pre ns ++ dir') = false := by
  by_contra hkey'
  rw [Bool.not_eq_false] at hkey'
  rw [hasPrefix_iff, String.toList_append] at hkey hkey'
  rcases List.prefix_or_prefix_of_prefix hkey hkey' with hp | hp
  · exact h ((List.prefix_append_right_inj _).mp hp)
  · exact h' ((List.prefix_append_right_inj _).mp hp)

/-- The assignment version key lies in no directory of its namespace, even of
one called like the directory of the versions: it has one slash too few. -/
theorem not_hasPrefix_assignmentVersionKey (dir : String) (hdir : '/' ∈ dir.toList) :
    hasPrefix (buildAssignmentVersionKey pre ns) (buildNamespacePrefix pre ns ++ dir) = false := by
  by_contra hkey
  rw [Bool.not_eq_false] at hkey
  obtain ⟨tail, htail⟩ := hasPrefix_iff.mp hkey
  have hcount := congrArg (List.count '/') htail
  have hpos : 0 < dir.toList.count '/' := List.count_pos_iff.mpr hdir
  have hname : assignmentVersionsDir.toList.count '/' = 0 := by decide
  simp only [buildNamespacePrefix, buildAssignmentVersionKey, String.toList_append, List.count_append,
    hname] at hcount
  omega

theorem assignmentVersionKey_ne_of_dir (dir : String) {key : String} (hdir : '/' ∈ dir.toList)
    (hkey : hasPrefix key (buildNamespacePrefix pre ns ++ dir) = true) :
    key ≠ buildAssignmentVersionKey pre ns := by
  rintro rfl
  rw [not_hasPrefix_assignmentVersionKey dir hdir] at hkey
  cases hkey

theorem executorKey_ne_of_dir {executorID key : String} (dir : String) (h : ¬"executors/".toList <+: dir.toList)
    (h' : ¬dir.toList <+: "executors/".toList) (hkey : hasPrefix key (buildNamespacePrefix pre ns ++ dir) = true)
    (kt : ExecutorKeyType) : buildExecutorKey pre ns executorID kt ≠ key := by
  rintro rfl
  rw [not_hasPrefix_of_dir h h' (hasPrefix_executorsPrefix_key executorID kt)] at hkey
  cases hkey

theorem executorKey_ne_version (executorID : String) (kt : ExecutorKeyType) :
    buildExecutorKey pre ns executorID kt ≠ buildAssignmentVersionKey pre ns :=
  assignmentVersionKey_ne_of_dir "executors/" (by decide) (hasPrefix_executorsPrefix_key executorID kt)

theorem executorKey_ne_drainedShardKey (executorID shardID : String) (kt : ExecutorKeyType) :
    buildExecutorKey pre ns executorID kt ≠ buildDrainedShardKey pre ns shardID :=
  executorKey_ne_of_dir "drained_shards/" (by decide) (by decide) (hasPrefix_append _ _) kt

theorem executorKey_ne_drainedHostKey (executorID host : String) (kt : ExecutorKeyType) :
    buildExecutorKey pre ns executorID kt ≠ buildDrainedHostKey pre ns host :=
  executorKey_ne_of_dir "drained_hosts/" (by decide) (by decide) (hasPrefix_append _ _) kt

/-- A namespace whose name does not start with an underscore does not hold the
assignment versions. -/
theorem not_hasPrefix_namespace_assignmentVersionKey (hns : hasPrefix ns "_" = false) (ns' : String) :
    hasPrefix (buildAssignmentVersionKey pre ns') (buildNamespacePrefix pre ns) = false := by
  by_contra hkey
  rw [Bool.not_eq_false] at hkey
  obtain ⟨tail, htail⟩ := hasPrefix_iff.mp hkey
  have hlist : ns.toList ++ '/' :: tail = '_' :: ("assignment_versions".toList ++ '/' :: ns'.toList) := by
    simpa [buildNamespacePrefix, buildAssignmentVersionKey, assignmentVersionsDir] using htail
  cases hnil : ns.toList with
  | nil =>
    rw [hnil, List.nil_append] at hlist
    exact absurd (List.cons.inj hlist).1 (by decide)
  | cons c rest =>
    rw [hnil, List.cons_append] at hlist
    have hc : c = '_' := (List.cons.inj hlist).1
    have hpre : hasPrefix ns "_" = true := by
      rw [hasPrefix_iff, hnil, hc]
      exact ⟨rest, rfl⟩
    rw [hpre] at hns
    cases hns

end etcdkeys
