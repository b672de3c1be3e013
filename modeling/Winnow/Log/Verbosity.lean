import Winnow.Log.Flag

/-!
# Verbosity

A verbosity gives every flag a level. A message of some level is wanted when the level of its
flag is at least as high. Presets of growing detail assign levels to all flags at once, and
flag tokens adjust them one family at a time.
-/

namespace Winnow

/-- The levels of the info flags. -/
structure InfoLevels where
  filter : UInt8 := 0
  enumerate : UInt8 := 0
  remove : UInt8 := 0
  stats : UInt8 := 0
deriving DecidableEq

namespace InfoLevels

/-- The level of one flag. -/
def get (levels : InfoLevels) : InfoFlag → UInt8
  | .filter => levels.filter
  | .enumerate => levels.enumerate
  | .remove => levels.remove
  | .stats => levels.stats

/-- Gives one flag a level. -/
def set (levels : InfoLevels) (flag : InfoFlag) (level : UInt8) : InfoLevels :=
  match flag with
  | .filter => { levels with filter := level }
  | .enumerate => { levels with enumerate := level }
  | .remove => { levels with remove := level }
  | .stats => { levels with stats := level }

/-- The same level for every flag. -/
def uniform (level : UInt8) : InfoLevels := ⟨level, level, level, level⟩

@[simp]
theorem get_set (levels : InfoLevels) (flag other : InfoFlag) (level : UInt8) :
    (levels.set flag level).get other = if other = flag then level else levels.get other := by
  cases flag <;> cases other <;> rfl

@[simp]
theorem get_uniform (level : UInt8) (flag : InfoFlag) : (uniform level).get flag = level := by
  cases flag <;> rfl

end InfoLevels

/-- The levels of the debug flags. -/
structure DebugLevels where
  filter : UInt8 := 0
  enumerate : UInt8 := 0
  ancestor : UInt8 := 0
  scope : UInt8 := 0
deriving DecidableEq

namespace DebugLevels

/-- The level of one flag. -/
def get (levels : DebugLevels) : DebugFlag → UInt8
  | .filter => levels.filter
  | .enumerate => levels.enumerate
  | .ancestor => levels.ancestor
  | .scope => levels.scope

/-- Gives one flag a level. -/
def set (levels : DebugLevels) (flag : DebugFlag) (level : UInt8) : DebugLevels :=
  match flag with
  | .filter => { levels with filter := level }
  | .enumerate => { levels with enumerate := level }
  | .ancestor => { levels with ancestor := level }
  | .scope => { levels with scope := level }

/-- The same level for every flag. -/
def uniform (level : UInt8) : DebugLevels := ⟨level, level, level, level⟩

@[simp]
theorem get_set (levels : DebugLevels) (flag other : DebugFlag) (level : UInt8) :
    (levels.set flag level).get other = if other = flag then level else levels.get other := by
  cases flag <;> cases other <;> rfl

@[simp]
theorem get_uniform (level : UInt8) (flag : DebugFlag) : (uniform level).get flag = level := by
  cases flag <;> rfl

end DebugLevels

/-- A level for every flag. -/
structure Verbosity where
  info : InfoLevels := {}
  debug : DebugLevels := {}
deriving DecidableEq

namespace Verbosity

instance : Inhabited Verbosity := ⟨{}⟩

/-- The level of a flag. -/
def level (verbosity : Verbosity) : Flag → UInt8
  | .info flag => verbosity.info.get flag
  | .debug flag => verbosity.debug.get flag

/-- Whether messages of a flag and level are wanted. -/
def wants (verbosity : Verbosity) (flag : Flag) (level : UInt8) : Bool :=
  level ≤ verbosity.level flag

/-- Gives one flag a level. -/
def set (verbosity : Verbosity) (flag : Flag) (level : UInt8) : Verbosity :=
  match flag with
  | .info flag => { verbosity with info := verbosity.info.set flag level }
  | .debug flag => { verbosity with debug := verbosity.debug.set flag level }

/-- Gives every flag of a family the same level. -/
def setAll (verbosity : Verbosity) (family : Family) (level : UInt8) : Verbosity :=
  match family with
  | .info => { verbosity with info := .uniform level }
  | .debug => { verbosity with debug := .uniform level }

@[simp]
theorem level_set (verbosity : Verbosity) (flag other : Flag) (level : UInt8) :
    (verbosity.set flag level).level other =
      if other = flag then level else verbosity.level other := by
  cases flag <;> cases other <;> simp [set, Verbosity.level]

@[simp]
theorem level_setAll (verbosity : Verbosity) (family : Family) (flag : Flag) (level : UInt8) :
    (verbosity.setAll family level).level flag =
      if flag.family = family then level else verbosity.level flag := by
  cases family <;> cases flag <;> simp [setAll, Verbosity.level, Flag.family]

/-- The presets. Each one adds to the one below it; there is none above the fourth. -/
def preset : Nat → Verbosity
  | 0 => {}
  | 1 => { info := { filter := 1, remove := 1, stats := 1 } }
  | 2 =>
      { info := { filter := 2, enumerate := 1, remove := 1, stats := 1 },
        debug := { filter := 1, scope := 1 } }
  | 3 =>
      { info := { filter := 2, enumerate := 1, remove := 1, stats := 1 },
        debug := { filter := 2, enumerate := 1, ancestor := 1, scope := 1 } }
  | _ => { info := .uniform 2, debug := .uniform 3 }

end Verbosity

end Winnow
