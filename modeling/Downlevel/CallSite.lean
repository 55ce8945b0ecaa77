/-
# Downlevel.CallSite — dynamic call sites and the factories that replace them

A dynamic call site names a bootstrap method and hands it arguments. Those whose
bootstrap method belongs to the lambda metafactory construct lambdas; each of them
is replaced by a call of a factory, a static method of a synthesized class.

Synthesized classes are called `<owner>$$Lambda$<n>`. The bodies of lambdas are
methods called `lambda$<n>` or `lambda$<anything>$<n>`.
-/
import Downlevel.Constant
import Downlevel.Descriptor
import Downlevel.Numbering

namespace Downlevel

set_option autoImplicit false

/-! ## Names -/

/-- The class whose bootstrap methods construct lambdas. -/
def metafactory : String := "java/lang/invoke/LambdaMetafactory"

/-- The name of the factory method of a synthesized class. -/
def factoryName : String := "lambdaFactory$"

def synthesizedName (owner : String) (number : UInt32) : String :=
  owner ++ "$$Lambda$" ++ toString number.toNat

/-- What follows the last dollar sign, or everything if there is none. -/
def afterLastDollar (cs : List Char) : List Char :=
  (cs.reverse.takeWhile (· != '$')).reverse

/-- What follows `lambda$` at the front of a name. -/
def lambdaTail? : List Char → Option (List Char)
  | 'l' :: 'a' :: 'm' :: 'b' :: 'd' :: 'a' :: '$' :: rest => some rest
  | _ => none

/-- Whether a method of this name is the body of a lambda. -/
def isLambdaBody (name : String) : Bool :=
  match lambdaTail? name.toList with
  | some rest =>
      let counter := afterLastDollar rest
      counter != [] && counter.all Char.isDigit
  | none => false

/-! ## Call sites -/

structure CallSite where
  name : String
  descriptor : String
  bootstrap : MethodHandle
  arguments : List Loadable
  deriving DecidableEq

namespace CallSite

def constructsLambda (site : CallSite) : Bool :=
  site.bootstrap.member.owner == metafactory

def text (site : CallSite) : String :=
  site.name ++ site.descriptor ++ " via " ++ site.bootstrap.text

end CallSite

/-! ## Factories -/

structure Factory where
  owner : String
  name : String
  descriptor : String
  deriving DecidableEq

namespace Factory

def text (factory : Factory) : String :=
  factory.owner ++ "." ++ factory.name ++ factory.descriptor

/-- The factory of a given class for a call site. -/
def forSite (owner : String) (site : CallSite) : Factory :=
  ⟨owner, factoryName, site.descriptor⟩

/-- The factory of the next synthesized class of an enclosing class. -/
def nextFor (enclosing : String) (site : CallSite) (numbering : Numbering) :
    Factory × Numbering :=
  let (number, numbering) := numbering.next
  (forSite (synthesizedName enclosing number) site, numbering)

/-- Whether a call of the factory can stand for the call site: the same parameters, and a
reference to return. -/
def fits (factory : Factory) (expected : MethodDescriptor) : Bool :=
  match MethodDescriptor.parse? factory.descriptor with
  | some actual =>
      actual.parameters == expected.parameters &&
        match actual.result with
        | some type => type.isReference
        | none => false
  | none => false

end Factory

end Downlevel
