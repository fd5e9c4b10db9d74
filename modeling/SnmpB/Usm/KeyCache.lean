import SnmpB.Usm.Users

/-! # The table of keys is a cache

While users come and go and are asked for, every entry with keys that can be found stays
what it would be if it were made now, or when its user was deleted.
-/
namespace SnmpB.Usm
open KeyedList UserTables
open SnmpB.Profile (OctetStr USMUserNameTable UsmUserNameTableEntry)

/-- The names in the table are those of the users added, and the keys are theirs. A user with a name
that is too long keeps its keys when it is deleted. -/
structure Coherent (ap : AuthPriv) (users keys : OctetStr → Option UsmUserNameTableEntry) (t : UserTables) :
    Prop where
  named : ∀ s n, keys s = some n → n.usmUserName = s ∧ n.usmUserSecurityName = s
  kept : ∀ s n, users s = some n → keys s = some n
  names : ∀ n, n ∈ t.usmUserNameTable.users ↔ users n.usmUserSecurityName = some n
  keys : ∀ e ∈ t.usmUserTable, e.usmUserName = e.usmUserSecurityName ∧
    (e.usmUserSecurityName.length ≤ maxLenUsmUserName →
      ∃ n, keys e.usmUserSecurityName = some n ∧ freshUser ap n e.usmUserEngineID = some e)

section Lookup
variable {t : UserTables} {engineId s : OctetStr}

theorem getEntry_some {e : UsmUserTableEntry} (h : t.getEntry engineId s = some e) :
    e ∈ t.usmUserTable ∧ e.usmUserSecurityName = s ∧ e.usmUserEngineID = engineId := by
  have hfound := List.find?_some h
  exact ⟨List.mem_of_find?_eq_some h, of_decide_eq_true hfound⟩

theorem getEntry_none (h : t.getEntry engineId s = none) {e : UsmUserTableEntry} (he : e ∈ t.usmUserTable) :
    ¬ (e.usmUserSecurityName = s ∧ e.usmUserEngineID = engineId) := by
  simpa using List.find?_eq_none.mp h e he

theorem getNameEntry_some {n : UsmUserNameTableEntry} (h : t.getNameEntry s = some n) :
    n ∈ t.usmUserNameTable.users ∧ n.usmUserSecurityName = s :=
  have hfound := List.find?_some h
  ⟨List.mem_of_find?_eq_some h, of_decide_eq_true hfound⟩

theorem getNameEntry_none (h : t.getNameEntry s = none) {n : UsmUserNameTableEntry}
    (hn : n ∈ t.usmUserNameTable.users) : n.usmUserSecurityName ≠ s := by
  simpa using List.find?_eq_none.mp h n hn

theorem getEntryOf_some {e : UsmUserTableEntry} (h : t.getEntryOf s = some e) :
    e ∈ t.usmUserTable ∧ e.usmUserSecurityName = s :=
  have hfound := List.find?_some h
  ⟨List.mem_of_find?_eq_some h, of_decide_eq_true hfound⟩

theorem getEntryOf_none (h : t.getEntryOf s = none) {e : UsmUserTableEntry} (he : e ∈ t.usmUserTable) :
    e.usmUserSecurityName ≠ s := by
  simpa using List.find?_eq_none.mp h e he

theorem mem_addLocalizedUser {e x : UsmUserTableEntry} (h : x ∈ (t.addLocalizedUser e).usmUserTable) :
    x ∈ t.usmUserTable ∨ x = e := by
  rcases List.mem_append.mp h with h | h
  · left
    unfold deleteKey at h
    split at h
    · exact h
    · rename_i i hfind
      have hi := (find_eq_some.mp hfind).1
      exact List.mem_of_mem_eraseIdx ((swapRemove_perm hi).mem_iff.mp h)
  · exact Or.inr (List.mem_singleton.mp h)

/-- An entry that was not there is found once it was added. -/
theorem getEntry_addLocalizedUser {e : UsmUserTableEntry} (h : t.getEntry engineId s = none)
    (hname : e.usmUserSecurityName = s) (hengine : e.usmUserEngineID = engineId) :
    (t.addLocalizedUser e).getEntry engineId s = some e := by
  cases hfind : (t.addLocalizedUser e).getEntry engineId s with
  | none =>
    have hmem : e ∈ (t.addLocalizedUser e).usmUserTable :=
      List.mem_append_right _ (List.mem_singleton.mpr rfl)
    exact absurd ⟨hname, hengine⟩ (getEntry_none hfind hmem)
  | some x =>
    obtain ⟨hx, hfound⟩ := getEntry_some hfind
    rcases mem_addLocalizedUser hx with hold | rfl
    · exact absurd hfound (getEntry_none h hold)
    · rfl

end Lookup

section Coherence
variable {ap : AuthPriv} {users keys : OctetStr → Option UsmUserNameTableEntry} {t : UserTables}

theorem Coherent.nameEntry_eq (h : Coherent ap users keys t) (s : OctetStr) : t.getNameEntry s = users s := by
  cases hfind : t.getNameEntry s with
  | some n =>
    obtain ⟨hn, hname⟩ := getNameEntry_some hfind
    exact (hname ▸ (h.names n).mp hn).symm
  | none =>
    cases huser : users s with
    | none => rfl
    | some n =>
      have hname := (h.named s n (h.kept s n huser)).2
      have hn : n ∈ t.usmUserNameTable.users := (h.names n).mpr (hname.symm ▸ huser)
      exact absurd hname (getNameEntry_none hfind hn)

theorem freshUser_some {n : UsmUserNameTableEntry} {engineId : OctetStr} {keys : List SnmpB.Ber.Byte × List SnmpB.Ber.Byte}
    (hengine : engineId ≠ []) (hkeys : ap.buildLocalizedKeys engineId n = some keys) :
    freshUser ap n engineId = some (localizedUser n engineId keys) := by
  rw [freshUser, if_neg hengine, hkeys]
  rfl

/-- What a caller may be answered: a user that was added with the keys of its passwords, and nobody
else but a user whose keys are left. -/
structure Answers (ap : AuthPriv) (users keys : OctetStr → Option UsmUserNameTableEntry) (engineId s : OctetStr)
    (answer : Option UsmUser) : Prop where
  user : ∀ n, users s = some n → answer = freshUser ap n engineId
  other : ∀ u, answer = some u → ∃ n, keys s = some n ∧ freshUser ap n engineId = some u

/-- Asking for a user: what the caller gets and what is in the tables afterwards. -/
theorem Coherent.getUser (h : Coherent ap users keys t) (engineId s : OctetStr) :
    Coherent ap users keys (t.getUser ap engineId s).2 ∧
      (s.length ≤ maxLenUsmUserName → Answers ap users keys engineId s (t.getUser ap engineId s).1) := by
  have hsame : ∀ {n m}, users s = some n → keys s = some m → n = m := fun hn hm =>
    Option.some.inj ((h.kept s _ hn).symm.trans hm)
  unfold UserTables.getUser
  cases hentry : t.getEntry engineId s with
  | some e =>
    obtain ⟨he, hname, hengine⟩ := getEntry_some hentry
    refine ⟨h, fun hs => ?_⟩
    obtain ⟨n, hkeys, hfresh⟩ := (h.keys e he).2 (hname.symm ▸ hs)
    rw [hname] at hkeys
    rw [hengine] at hfresh
    constructor
    · intro m hm
      rw [hsame hm hkeys, hfresh]
    · rintro u hu
      exact ⟨n, hkeys, hfresh.trans hu⟩
  | none =>
    simp only
    rw [h.nameEntry_eq s]
    cases huser : users s with
    | none =>
      simp only
      cases hof : t.getEntryOf s with
      | none => exact ⟨h, fun _ => ⟨fun n hn => by simp [huser] at hn, fun u hu => by cases hu⟩⟩
      | some e =>
        obtain ⟨he, hname⟩ := getEntryOf_some hof
        refine ⟨h, fun hs => ⟨fun n hn => by simp [huser] at hn, fun u hu => ?_⟩⟩
        obtain ⟨n, hkeys, -⟩ := (h.keys e he).2 (hname.symm ▸ hs)
        rw [hname] at hkeys
        obtain ⟨hown, hsec⟩ := h.named s n hkeys
        refine ⟨n, hkeys, ?_⟩
        by_cases hengine : engineId = []
        · simp only [if_pos hengine] at hu
          rw [freshUser, if_pos hengine, ← hu, hown, hsec, (h.keys e he).1, hname]
        · simp only [if_neg hengine] at hu
          cases hu
    | some n =>
      have hkeys := h.kept s n huser
      obtain ⟨hown, hname⟩ := h.named s n hkeys
      have hanswer : ∀ answer, answer = freshUser ap n engineId → Answers ap users keys engineId s answer := by
        rintro answer rfl
        refine ⟨fun m hm => ?_, fun u hu => ⟨n, hkeys, hu⟩⟩
        rw [hsame hm hkeys]
      simp only
      by_cases hengine : engineId = []
      · rw [if_pos hengine]
        refine ⟨h, fun _ => hanswer _ ?_⟩
        rw [freshUser, if_pos hengine]
      · rw [if_neg hengine]
        cases hbuilt : ap.buildLocalizedKeys engineId n with
        | none =>
          refine ⟨h, fun _ => hanswer _ ?_⟩
          rw [freshUser, if_neg hengine, hbuilt]
          rfl
        | some built =>
          have hfresh := freshUser_some hengine hbuilt
          refine ⟨⟨h.named, h.kept, h.names, fun e he => ?_⟩, fun _ => hanswer _ ?_⟩
          · rcases mem_addLocalizedUser he with hold | rfl
            · exact h.keys e hold
            · exact ⟨hown.trans hname.symm, fun _ => ⟨n, by rw [← hkeys, ← hname]; rfl, hfresh⟩⟩
          · rw [hfresh]
            exact getEntry_addLocalizedUser hentry hname rfl

theorem mem_deleteLocalizedUser {userName : OctetStr} {e : UsmUserTableEntry} :
    e ∈ (t.deleteLocalizedUser userName).usmUserTable ↔ e ∈ t.usmUserTable ∧ e.usmUserName ≠ userName := by
  unfold deleteLocalizedUser
  rw [mem_removeFrom_zero, decide_eq_false_iff_not]

theorem update_eq_some {f : OctetStr → Option UsmUserNameTableEntry} {s s' : OctetStr}
    {o : Option UsmUserNameTableEntry} {n : UsmUserNameTableEntry} :
    Function.update f s o s' = some n ↔ s' = s ∧ o = some n ∨ s' ≠ s ∧ f s' = some n := by
  by_cases h : s' = s
  · rw [h, Function.update_self]
    simp
  · rw [Function.update_of_ne h]
    simp [h]

theorem Coherent.own_name (h : Coherent ap users keys t) {n : UsmUserNameTableEntry}
    (hn : n ∈ t.usmUserNameTable.users) : n.usmUserName = n.usmUserSecurityName :=
  (h.named _ n (h.kept _ n ((h.names n).mp hn))).1

theorem Coherent.mem_addEntry (h : Coherent ap users keys t) {n : UsmUserNameTableEntry}
    (hsame : n.usmUserName = n.usmUserSecurityName) (m : UsmUserNameTableEntry) :
    m ∈ (t.usmUserNameTable.addEntry n).users ↔
      Function.update users n.usmUserSecurityName (some n) m.usmUserSecurityName = some m := by
  have hmem : m ∈ (t.usmUserNameTable.addEntry n).users ↔
      m = n ∨ (m ∈ t.usmUserNameTable.users ∧ m.usmUserName ≠ n.usmUserName) := by
    rw [USMUserNameTable.users_addEntry]
    exact mem_upsert_iff t.usmUserNameTable.distinct
  rw [hmem, update_eq_some, ← h.names m]
  constructor
  · rintro (rfl | ⟨hold, hne⟩)
    · exact Or.inl ⟨rfl, rfl⟩
    · exact Or.inr ⟨fun hm => hne ((h.own_name hold).trans (hm.trans hsame.symm)), hold⟩
  · rintro (⟨-, hm⟩ | ⟨hne, hold⟩)
    · exact Or.inl (Option.some.inj hm).symm
    · exact Or.inr ⟨hold, fun heq => hne ((h.own_name hold).symm.trans (heq.trans hsame))⟩

theorem Coherent.addUsmUser (h : Coherent ap users keys t) (localEngineId : OctetStr) {n : UsmUserNameTableEntry}
    (hsame : n.usmUserName = n.usmUserSecurityName) :
    Coherent ap (Function.update users n.usmUserSecurityName (some n))
      (Function.update keys n.usmUserSecurityName (some n)) (t.addUsmUser ap localEngineId n) := by
  refine (Coherent.getUser ⟨?_, ?_, h.mem_addEntry hsame, ?_⟩ localEngineId n.usmUserSecurityName).1
  · intro s m hm
    rcases update_eq_some.mp hm with ⟨rfl, hnew⟩ | ⟨-, hold⟩
    · obtain rfl := Option.some.inj hnew
      exact ⟨hsame, rfl⟩
    · exact h.named s m hold
  · intro s m hm
    exact update_eq_some.mpr ((update_eq_some.mp hm).imp_right fun ⟨hne, hold⟩ => ⟨hne, h.kept s m hold⟩)
  · intro e he
    obtain ⟨hold, hne⟩ := mem_deleteLocalizedUser.mp he
    obtain ⟨huser, hkeys⟩ := h.keys e hold
    have hother : e.usmUserSecurityName ≠ n.usmUserSecurityName := fun heq =>
      hne (huser.trans (heq.trans hsame.symm))
    refine ⟨huser, fun hs => ?_⟩
    rw [Function.update_of_ne hother]
    exact hkeys hs

theorem Coherent.deleteSecurityName (h : Coherent ap users keys t) (s : OctetStr) :
    Coherent ap (Function.update users s none) keys (t.deleteSecurityName s) := by
  refine ⟨h.named, ?_, ?_, h.keys⟩
  · intro s' n hn
    rcases update_eq_some.mp hn with ⟨-, hnone⟩ | ⟨-, hold⟩
    · cases hnone
    · exact h.kept s' n hold
  · intro n
    have hdistinct : (t.usmUserNameTable.users.map UsmUserNameTableEntry.usmUserSecurityName).Nodup := by
      have hmap : t.usmUserNameTable.users.map UsmUserNameTableEntry.usmUserSecurityName =
          t.usmUserNameTable.users.map UsmUserNameTableEntry.usmUserName := by
        exact List.map_congr_left fun m hm => (h.own_name hm).symm
      rw [hmap]
      exact t.usmUserNameTable.distinct
    rw [UserTables.deleteSecurityName, USMUserNameTable.users_deleteSecurityName, mem_deleteKey_iff hdistinct,
      h.names n, update_eq_some, and_comm]
    simp

/-- Keys that are gone are made again when they are asked for. -/
theorem Coherent.deleteKeysOf (h : Coherent ap users keys t) (s : OctetStr) : Coherent ap users keys (t.deleteKeysOf s) := by
  unfold UserTables.deleteKeysOf
  split
  · exact ⟨h.named, h.kept, h.names, fun e he => h.keys e (mem_deleteLocalizedUser.mp he).1⟩
  · exact h

/-- The keys of a name that is not in the table of names any more. -/
theorem Coherent.deleteKeysOf_deleted (h : Coherent ap users keys t) {s : OctetStr} (hs : users s = none) :
    Coherent ap users (Function.update keys s none) (t.deleteKeysOf s) := by
  have hkept : ∀ s' n, users s' = some n → Function.update keys s none s' = some n := by
    intro s' n hn
    refine update_eq_some.mpr (Or.inr ⟨?_, h.kept s' n hn⟩)
    rintro rfl
    simp [hs] at hn
  have hnamed : ∀ s' n, Function.update keys s none s' = some n →
      n.usmUserName = s' ∧ n.usmUserSecurityName = s' := by
    intro s' n hn
    rcases update_eq_some.mp hn with ⟨-, hnone⟩ | ⟨-, hold⟩
    · cases hnone
    · exact h.named s' n hold
  have hothers : ∀ e ∈ t.usmUserTable, (e.usmUserSecurityName ≠ s ∨ maxLenUsmUserName < s.length) →
      e.usmUserName = e.usmUserSecurityName ∧ (e.usmUserSecurityName.length ≤ maxLenUsmUserName →
        ∃ n, Function.update keys s none e.usmUserSecurityName = some n ∧
          freshUser ap n e.usmUserEngineID = some e) := by
    intro e he hor
    obtain ⟨huser, hkeys⟩ := h.keys e he
    refine ⟨huser, fun hlength => ?_⟩
    have hne : e.usmUserSecurityName ≠ s := by
      rcases hor with hne | hlong
      · exact hne
      · rintro rfl
        omega
    rw [Function.update_of_ne hne]
    exact hkeys hlength
  unfold UserTables.deleteKeysOf
  simp only [getUserName, h.nameEntry_eq s, hs, Option.bind_none, Option.none_or]
  cases hof : t.getEntryOf s with
  | none => exact ⟨hnamed, hkept, h.names, fun e he => hothers e he (Or.inl (getEntryOf_none hof he))⟩
  | some x =>
    obtain ⟨hx, hname⟩ := getEntryOf_some hof
    have huser : x.usmUserName = s := (h.keys x hx).1.trans hname
    simp only [Option.bind_some, huser, fitting]
    by_cases hlength : s.length ≤ maxLenUsmUserName
    · rw [if_pos hlength]
      refine ⟨hnamed, hkept, h.names, fun e he => ?_⟩
      obtain ⟨hold, hne⟩ := mem_deleteLocalizedUser.mp he
      exact hothers e hold (Or.inl fun heq => hne ((h.keys e hold).1.trans heq))
    · rw [if_neg hlength]
      exact ⟨hnamed, hkept, h.names, fun e he => hothers e he (Or.inr (Nat.lt_of_not_le hlength))⟩

theorem Coherent.step (h : Coherent ap users keys t) (localEngineId : OctetStr) (op : UserOp) :
    Coherent ap (userHistoryStep t ⟨users, keys⟩ op).users (userHistoryStep t ⟨users, keys⟩ op).keys
      (userStep ap localEngineId t op) := by
  cases op with
  | addUsmUser name authProtocol privProtocol authPassword privPassword =>
    exact h.addUsmUser localEngineId (n := ⟨name, name, authProtocol, privProtocol, authPassword, privPassword⟩) rfl
  | deleteUsmUser name =>
    exact (h.deleteSecurityName name).deleteKeysOf_deleted (Function.update_self name none users)
  | deleteUsmUserAt e =>
    have hgone := h.deleteSecurityName (t.nameAt e)
    simp only [userHistoryStep, userStep, UserTables.deleteUsmUserAt]
    split
    · rename_i hsame
      rw [hsame]
      exact hgone.deleteKeysOf_deleted (Function.update_self (t.nameAt e) none users)
    · exact hgone.deleteKeysOf _
  | getUser engineId name => exact (h.getUser engineId name).1

end Coherence

theorem coherent_run (ap : AuthPriv) (localEngineId : OctetStr) (ops : List UserOp) :
    Coherent ap (userRun ap localEngineId ops).2.users (userRun ap localEngineId ops).2.keys
      (userRun ap localEngineId ops).1 := by
  induction ops using List.reverseRecOn with
  | nil =>
    refine ⟨?_, ?_, fun n => iff_of_false ?_ ?_, ?_⟩
    · exact fun s n h => by cases h
    · exact fun s n h => by cases h
    · exact fun h => by cases h
    · exact fun h => by cases h
    · exact fun e he => by cases he
  | append_singleton ops op ih =>
    rw [userRun, List.foldl_concat]
    exact ih.step localEngineId op

/-- After any calls a user with a name of at most 32 octets is found with the keys of the passwords
it was added with last. Once it was deleted it is not found, unless its keys were left. -/
theorem getUser_configured (ap : AuthPriv) (localEngineId : OctetStr) (ops : List UserOp) (engineId : OctetStr)
    {s : OctetStr} (hs : s.length ≤ maxLenUsmUserName) :
    Answers ap (userRun ap localEngineId ops).2.users (userRun ap localEngineId ops).2.keys engineId s
      ((userRun ap localEngineId ops).1.getUser ap engineId s).1 :=
  ((coherent_run ap localEngineId ops).getUser engineId s).2 hs

def checksumOnly : AuthPriv := ⟨fun protocol => if protocol = 2 then some Auth.checksum else none, fun _ => none⟩

/-- Two users with passwords, of which the first one is asked for and then deleted by the reference to
its name, where the second one is then. -/
def deletedByReference : List UserOp :=
  [.addUsmUser [97] 2 1 [112] [], .addUsmUser [98] 2 1 [113] [], .getUser [5] [97], .deleteUsmUserAt 0]

/-- The second user has its keys, and the first one still has those it had. -/
theorem getUser_configured_sample :
    ((userRun checksumOnly [9] deletedByReference).1.getUser checksumOnly [5] [98]).1 =
      freshUser checksumOnly ⟨[98], [98], 2, 1, [113], []⟩ [5] ∧
    ∃ u, ((userRun checksumOnly [9] deletedByReference).1.getUser checksumOnly [5] [97]).1 = some u ∧
      ∃ n, (userRun checksumOnly [9] deletedByReference).2.keys [97] = some n ∧
        freshUser checksumOnly n [5] = some u := by
  have hfirst : ([97] : OctetStr).length ≤ maxLenUsmUserName := by decide
  have hsecond : ([98] : OctetStr).length ≤ maxLenUsmUserName := by decide
  have hfound : ((userRun checksumOnly [9] deletedByReference).1.getUser checksumOnly [5] [97]).1.isSome := by
    decide +kernel
  obtain ⟨u, hu⟩ := Option.isSome_iff_exists.mp hfound
  have huser : (userRun checksumOnly [9] deletedByReference).2.users [98] =
      some ⟨[98], [98], 2, 1, [113], []⟩ := by decide +kernel
  refine ⟨(getUser_configured checksumOnly [9] deletedByReference [5] hsecond).user _ huser, u, hu, ?_⟩
  exact (getUser_configured checksumOnly [9] deletedByReference [5] hfirst).other u hu

end SnmpB.Usm
