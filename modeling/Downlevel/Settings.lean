/-
# Downlevel.Settings — settings from the environment

Settings name the version to go down to and the class path. Both come from variables
of the environment: the class path from the first of two variables that is set, even if
it is empty; the paths in it are separated by colons, and empty ones do not count.
A variable's value is a byte string, which need not be text.
-/
import Downlevel.Path
import Downlevel.Version

namespace Downlevel

set_option autoImplicit false

structure Settings where
  target : Version
  classPath : List Path
  deriving DecidableEq

/-- Why settings could not be read. -/
inductive SettingsError where
  | badVersion (cause : Version.Unreadable)
  /-- The variable's value is not text. -/
  | notText (variableName : String)
  deriving DecidableEq

namespace Settings

def versionVariable : String := "JVM_BACKPORT_BYTECODE_VERSION"

def classPathVariable : String := "JVM_BACKPORT_CLASSPATH"

/-- Consulted if `classPathVariable` is not set. -/
def fallbackVariable : String := "CLASSPATH"

end Settings

namespace SettingsError

def message : SettingsError → String
  | badVersion _ => "invalid " ++ Settings.versionVariable
  | notText variableName => variableName ++ " is not valid unicode"

/-- The messages of the causes, the nearest first. -/
def causes : SettingsError → List String
  | badVersion cause => [cause.message]
  | notText _ => []

end SettingsError

namespace Settings

def standard : Settings := ⟨Version.standardTarget, []⟩

/-- Reads the version that a variable states. -/
def readVersion (value : Bytes) : Except SettingsError Version :=
  match String.fromUTF8? ⟨value.toArray⟩ with
  | none => .error (.notText versionVariable)
  | some text =>
      match Version.parse text with
      | .ok version => .ok version
      | .error cause => .error (.badVersion cause)

/-- The paths of a list that is separated by colons. -/
def readPaths (value : Bytes) : List Path :=
  ((value.splitOn 0x3A).filter fun piece => !piece.isEmpty).map Path.mk

/-- Reads settings from the variables that `lookup` gives. -/
def read (lookup : String → Option Bytes) : Except SettingsError Settings := do
  let target ←
    match lookup versionVariable with
    | some value => readVersion value
    | none => pure standard.target
  let classPath :=
    match (lookup classPathVariable).or (lookup fallbackVariable) with
    | some value => readPaths value
    | none => standard.classPath
  return ⟨target, classPath⟩

def withTarget (settings : Settings) (target : Version) : Settings :=
  { settings with target := target }

def withClassPath (settings : Settings) (paths : List Path) : Settings :=
  { settings with classPath := paths }

/-- Whether two settings mean the same: the version, and each path by its components. -/
def same (a b : Settings) : Bool :=
  a.target == b.target &&
    a.classPath.map Path.components == b.classPath.map Path.components

end Settings

end Downlevel
