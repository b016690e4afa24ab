import DiceNotation.Fulfillment.Resolver
import DiceNotation.Roll.Build

namespace DiceNotation

/-!
# Options of an evaluation

The options say how dice are rolled.  Together with the settings they make the
context that all terms of one evaluation share.
-/

/-- The options of an evaluation, as far as they are given. -/
structure Options where
  minimize : Bool := false
  maximize : Bool := false
  /-- Whether dice that need the outside are a fault when nothing can be waited for. -/
  strict : Bool := true
  allowStrings : Bool := false
  allowInteractive : Bool := true
  /-- Whether modifiers that fail are skipped. -/
  lenient : Option Bool := none
  maxChainRolls : Option Int := none

/-- What all terms of one evaluation share. -/
structure Context where
  methods : MethodTable
  minimize : Bool
  maximize : Bool
  /-- Whether nothing can be waited for. -/
  synchronous : Bool
  strict : Bool
  allowStrings : Bool
  allowInteractive : Bool
  lenient : Bool
  maxChainRolls : Int
  /-- The uniform values in the order in which they are taken. -/
  uniform : Nat → Float
  resolver : Option Resolver

/-- Whether chance plays no part, so that dice are not rolled again either. -/
def Context.isFixed (context : Context) : Bool := context.minimize || context.maximize

/-- Where an evaluation runs. -/
structure Surroundings where
  setup : Setup
  synchronous : Bool
  uniform : Nat → Float
  resolver : Option Resolver := none

namespace Options

/-- The context of options whose open points are settled. -/
def contextWith (options : Options) (surroundings : Surroundings) (lenient : Bool)
    (maxChainRolls : Int) : Context where
  methods := surroundings.setup.methods
  minimize := options.minimize
  maximize := options.maximize
  synchronous := surroundings.synchronous
  strict := options.strict
  allowStrings := options.allowStrings
  allowInteractive := options.allowInteractive
  lenient := lenient
  maxChainRolls := maxChainRolls
  uniform := surroundings.uniform
  resolver := surroundings.resolver

/-- The context of a roll.  What the options leave open the settings decide. -/
def forRoll (options : Options) (surroundings : Surroundings) : Except Fault Context := do
  let settings ← surroundings.setup.settings
  return options.contextWith surroundings (options.lenient.getD settings.lenientModifiers)
    (options.maxChainRolls.getD settings.maxChainRolls)

/-- The context of a single term.  The settings decide about the length of
chains only. -/
def forTerm (options : Options) (surroundings : Surroundings) : Except Fault Context :=
  let lenient := options.lenient.getD false
  match options.maxChainRolls with
  | some limit => .ok (options.contextWith surroundings lenient limit)
  | none => do
    let settings ← surroundings.setup.settings
    return options.contextWith surroundings lenient settings.maxChainRolls

end Options
end DiceNotation
