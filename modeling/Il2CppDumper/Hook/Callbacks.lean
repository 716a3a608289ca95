import Il2CppDumper.Model.Hook

/-!
# The callbacks of the module

`isGame` compares the package name that it scans from the directory of its call, whatever its static
buffer held before (`isGame_some`). So `hook.cpp`'s `game_data_dir`, once it is set, is a directory of
the target game. While `main.cpp`'s `enable_hack` is set it is that of the last call of `isGame`, and a
hack thread finds one whenever it reads it (`callbacks_accepted`).
-/

namespace Il2CppDumper

open Clib

/-! ### The scanned package name -/

/-- The text that a string conversion stores. -/
def itemText : Item → Option Text
  | .int _ => none
  | .str t => some t

/-- The package name in a directory: after the number of a user, else without one. -/
def scannedPackageName (appDataDir : Text) : Option Text :=
  if (sscanf appDataDir userFormat).result = 2 then
    (sscanf appDataDir userFormat).items[1]?.bind itemText
  else if (sscanf appDataDir plainFormat).result = 1 then
    (sscanf appDataDir plainFormat).items[0]?.bind itemText
  else none

theorem isGame_some (gamePackageName appDataDir : Text) (s : ModuleState) :
    isGame gamePackageName (some appDataDir) s =
      match scannedPackageName appDataDir with
      | none => (0, { s with packageName := [] })
      | some name => matchGame gamePackageName appDataDir { s with packageName := name } := by
  by_cases huser : (sscanf appDataDir userFormat).result = 2
  · obtain ⟨name, hname⟩ := sscanf_str_of_result (k := 1) huser (by decide)
    simp only [isGame, scannedPackageName, huser, hname, storeStr, itemText, if_true, ne_eq,
      not_true_eq_false, if_false, Option.bind_some]
  · by_cases hplain : (sscanf appDataDir plainFormat).result = 1
    · obtain ⟨name, hname⟩ := sscanf_str_of_result (k := 0) hplain (by decide)
      simp only [isGame, scannedPackageName, huser, hplain, hname, storeStr, itemText, if_true, ne_eq,
        not_true_eq_false, not_false_eq_true, if_false, Option.bind_some]
    · simp only [isGame, scannedPackageName, huser, hplain, if_true, ne_eq, not_false_eq_true, if_false]

/-- What a call of `isGame` does: it accepts the directory, and else leaves everything but its
buffer. -/
theorem isGame_cases (gamePackageName : Text) (appDataDir : Option Text) (s : ModuleState) :
    (∃ dir, appDataDir = some dir ∧ scannedPackageName dir = some gamePackageName ∧
      isGame gamePackageName appDataDir s = (1, { s with
        packageName := gamePackageName
        hook := { s.hook with gameDataDir := some dir } })) ∨
    ∃ buffer, isGame gamePackageName appDataDir s = (0, { s with packageName := buffer }) := by
  cases appDataDir with
  | none => exact .inr ⟨s.packageName, rfl⟩
  | some dir =>
    rw [isGame_some]
    cases hname : scannedPackageName dir with
    | none => exact .inr ⟨[], rfl⟩
    | some name =>
      by_cases hgame : name = gamePackageName
      · subst hgame
        exact .inl ⟨dir, rfl, hname, if_pos rfl⟩
      · exact .inr ⟨name, if_neg hgame⟩

/-! ### Runs -/

/-- The directory of the call of `isGame` that a callback makes. -/
def Callback.isGameDir : Callback → Option (Option Text)
  | .preAppSpecialize (some ⟨some _, appDataDir⟩) => some appDataDir
  | _ => none

/-- The directory of the last call of `isGame`. -/
def lastIsGame (callbacks : List Callback) : Option (Option Text) :=
  (callbacks.filterMap Callback.isGameDir).getLast?

theorem lastIsGame_append (callbacks : List Callback) (c : Callback) :
    lastIsGame (callbacks ++ [c]) = c.isGameDir.or (lastIsGame callbacks) := by
  cases h : c.isGameDir <;> simp [lastIsGame, List.filterMap_append, h]

/-- `game_data_dir` is an accepted directory once it is set, that of the last call of `isGame` while
`enable_hack` is, and set when there is a hack thread. -/
structure Accepted (gamePackageName : Text) (callbacks : List Callback) (s : ModuleState) : Prop where
  accepted : ∀ dir, s.hook.gameDataDir = some dir → scannedPackageName dir = some gamePackageName
  enabled : s.main.enableHack ≠ 0 → ∃ dir, lastIsGame callbacks = some (some dir) ∧
    s.hook.gameDataDir = some dir ∧ s.packageName = gamePackageName
  started : 0 < s.hackThreads → s.hook.gameDataDir ≠ none

variable {gamePackageName : Text}

theorem Accepted.init : Accepted gamePackageName [] .init where
  accepted dir h := by cases h
  enabled h := absurd rfl h
  started h := absurd h (Nat.lt_irrefl 0)

theorem Accepted.preAppSpecialize {callbacks : List Callback} {s : ModuleState}
    (hs : Accepted gamePackageName callbacks s) (args : Option AppSpecializeArgs) :
    Accepted gamePackageName (callbacks ++ [.preAppSpecialize args])
      (preAppSpecialize gamePackageName args s) := by
  -- without a call of `isGame` nothing changes
  have hskip : (Callback.preAppSpecialize args).isGameDir = none →
      Accepted gamePackageName (callbacks ++ [.preAppSpecialize args]) s := by
    intro hnone
    refine ⟨hs.accepted, ?_, hs.started⟩
    rw [lastIsGame_append, hnone]
    exact hs.enabled
  match args with
  | none => exact hskip rfl
  | some ⟨none, appDataDir⟩ => exact hskip rfl
  | some ⟨some niceName, appDataDir⟩ =>
    have hlast : lastIsGame (callbacks ++ [.preAppSpecialize (some ⟨some niceName, appDataDir⟩)]) =
        some appDataDir := lastIsGame_append _ _
    have hpre : Il2CppDumper.preAppSpecialize gamePackageName (some ⟨some niceName, appDataDir⟩) s =
        { (isGame gamePackageName appDataDir s).2 with
          main := { (isGame gamePackageName appDataDir s).2.main with
            enableHack := (isGame gamePackageName appDataDir s).1 } } := rfl
    rw [hpre]
    rcases isGame_cases gamePackageName appDataDir s with ⟨dir, rfl, hname, hgame⟩ | ⟨buffer, hgame⟩
    · rw [hgame]
      refine ⟨?_, fun _ => ⟨dir, hlast, rfl, rfl⟩, fun _ => Option.some_ne_none dir⟩
      intro dir' hdir
      obtain rfl := Option.some.inj hdir
      exact hname
    · -- the flag is cleared, and the directory of an earlier call stays
      rw [hgame]
      exact ⟨hs.accepted, fun henabled => absurd rfl henabled, hs.started⟩

theorem Accepted.postAppSpecialize {callbacks : List Callback} {s : ModuleState}
    (hs : Accepted gamePackageName callbacks s) (created : Bool) :
    Accepted gamePackageName (callbacks ++ [.postAppSpecialize created])
      (postAppSpecialize created s) := by
  have hlast : lastIsGame (callbacks ++ [.postAppSpecialize created]) = lastIsGame callbacks :=
    lastIsGame_append _ _
  rw [Il2CppDumper.postAppSpecialize]
  split_ifs with hstart
  · refine ⟨hs.accepted, ?_, ?_⟩
    · rw [hlast]
      exact hs.enabled
    · intro _
      obtain ⟨dir, -, hdir, -⟩ := hs.enabled hstart.1
      rw [hdir]
      exact Option.some_ne_none dir
  · refine ⟨hs.accepted, ?_, hs.started⟩
    rw [hlast]
    exact hs.enabled

theorem Accepted.of_run {callbacks : List Callback} {s : ModuleState}
    (h : (moduleMachine gamePackageName).Run Machine.unguarded .init callbacks s) :
    Accepted gamePackageName callbacks s := by
  refine Machine.Run.invariant .init (fun callbacks s c s' hs _ hstep => ?_) h
  cases c with
  | preAppSpecialize args =>
    obtain rfl := Option.some.inj hstep
    exact hs.preAppSpecialize args
  | postAppSpecialize created =>
    obtain rfl := Option.some.inj hstep
    exact hs.postAppSpecialize created

/-- **After any callbacks: while `enable_hack` is set, `game_data_dir` is the directory of the last call
of `isGame` and its package name is the target's; a call that returns 0 leaves `game_data_dir`; and
with a hack thread, the directory it passes on is an accepted one.** -/
theorem callbacks_accepted {callbacks : List Callback} {s : ModuleState}
    (h : (moduleMachine gamePackageName).Run Machine.unguarded .init callbacks s) :
    (s.main.enableHack ≠ 0 → ∃ dir, lastIsGame callbacks = some (some dir) ∧
      s.hook.gameDataDir = some dir ∧ scannedPackageName dir = some gamePackageName ∧
      s.packageName = gamePackageName) ∧
    (∀ appDataDir, (isGame gamePackageName appDataDir s).1 = 0 →
      (isGame gamePackageName appDataDir s).2.hook.gameDataDir = s.hook.gameDataDir) ∧
    (0 < s.hackThreads →
      ∃ dir, hackThreadOutDir s = some dir ∧ scannedPackageName dir = some gamePackageName) := by
  have hs := Accepted.of_run h
  refine ⟨?_, ?_, ?_⟩
  · intro henabled
    obtain ⟨dir, hlast, hdir, hbuffer⟩ := hs.enabled henabled
    exact ⟨dir, hlast, hdir, hs.accepted dir hdir, hbuffer⟩
  · intro appDataDir hzero
    rcases isGame_cases gamePackageName appDataDir s with ⟨dir, -, -, hgame⟩ | ⟨buffer, hgame⟩
    · rw [hgame] at hzero
      cases hzero
    · rw [hgame]
  · intro hstarted
    obtain ⟨dir, hdir⟩ := Option.ne_none_iff_exists'.1 (hs.started hstarted)
    exact ⟨dir, hdir, hs.accepted dir hdir⟩

/-- The process of the game starts after that of another application. -/
theorem callbacks_accepted_secondApp :
    ∃ s, (moduleMachine "com.game").Run Machine.unguarded .init
        [.preAppSpecialize (some ⟨some "app", some "/data/data/com.app"⟩), .postAppSpecialize true,
          .preAppSpecialize none, .preAppSpecialize (some ⟨some "game", some "/data/user/0/com.game"⟩),
          .postAppSpecialize true] s ∧ s.hackThreads = 1 ∧
      ∃ dir, hackThreadOutDir s = some dir ∧ scannedPackageName dir = some "com.game".toList := by
  obtain ⟨s, hrun, hstarted⟩ : ∃ s, (moduleMachine "com.game").Run Machine.unguarded .init
      [.preAppSpecialize (some ⟨some "app", some "/data/data/com.app"⟩), .postAppSpecialize true,
        .preAppSpecialize none, .preAppSpecialize (some ⟨some "game", some "/data/user/0/com.game"⟩),
        .postAppSpecialize true] s ∧ s.hackThreads = 1 :=
    ⟨_, .of_run (fun _ _ _ => trivial) rfl, by decide⟩
  exact ⟨s, hrun, hstarted, (callbacks_accepted hrun).2.2 (by omega)⟩

end Il2CppDumper
