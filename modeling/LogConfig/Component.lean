import LogConfig.Component.Appender
import LogConfig.Component.Custom
import LogConfig.Component.Filter
import LogConfig.Component.Layout
import LogConfig.Component.Logger

/-
  Components: whatever a configuration builds. All of them answer the same questions: what they
  are, which properties they publish, and how they take a value or a child. Some are activated
  once they are complete; activation checks the settings and may refuse.
-/

namespace LogConfig

inductive Component where
  | console (a : ConsoleAppender)
  | file (a : FileAppender)
  | layout (l : PatternLayout)
  | encoder (e : PatternLayoutEncoder)
  | threshold (f : ThresholdFilter)
  | levelFilter (f : LevelFilter)
  | logger (l : Logger)
  | context (c : LoggerContext)
  | custom (c : Custom)

namespace Component

def className : Component → String
  | console _ => ConsoleAppender.className
  | file _ => FileAppender.className
  | layout _ => PatternLayout.className
  | encoder _ => PatternLayoutEncoder.className
  | threshold _ => ThresholdFilter.className
  | levelFilter _ => LevelFilter.className
  | logger _ => Logger.className
  | context _ => LoggerContext.className
  | custom c => c.type.name

def kinds : Component → List ComponentKind
  | console _ => [.appender]
  | file _ => [.appender]
  | layout _ => [.layout]
  | encoder _ => [.encoder]
  | threshold _ => [.filter]
  | levelFilter _ => [.filter]
  | logger _ => [.logger]
  | context _ => [.context]
  | custom c => c.type.kinds

/-- Whether a component can serve as a kind. -/
def isKind (c : Component) (kind : ComponentKind) : Bool := c.kinds.contains kind

def descriptors : Component → List Descriptor
  | console _ => ConsoleAppender.descriptors
  | file _ => FileAppender.descriptors
  | layout _ => PatternLayout.descriptors
  | encoder _ => PatternLayoutEncoder.descriptors
  | threshold _ => ThresholdFilter.descriptors
  | levelFilter _ => LevelFilter.descriptors
  | logger _ => Logger.descriptors
  | context _ => []
  | custom c => c.type.descriptors

/-- Sets a property to a typed value. -/
def setProperty (c : Component) (name : String) (value : Value) : Except PropertyError Component :=
  match c with
  | console a => (a.setProperty name value).map console
  | file a => (a.setProperty name value).map file
  | layout l => (l.setProperty name value).map layout
  | encoder e => (e.setProperty name value).map encoder
  | threshold f => (f.setProperty name value).map threshold
  | levelFilter f => (f.setProperty name value).map levelFilter
  | logger l => (l.setProperty name value).map logger
  | context _ => .error (.notFound name LoggerContext.className)
  | custom c => (c.type.setProperty c.fields name value).map fun fields => custom { c with fields }

/-- The value of a property. -/
def property? (c : Component) (name : String) : Option Value :=
  match c with
  | console a => a.property? name
  | file a => a.property? name
  | layout l => l.property? name
  | encoder e => e.property? name
  | threshold f => f.property? name
  | levelFilter f => f.property? name
  | logger l => l.property? name
  | context c => c.property? name
  | custom c => c.type.property? c.fields name

/-- The name of a component, if it has one. -/
def title? (c : Component) : Option String := (c.property? "name").bind Value.text?

/-- Fills a slot with a child. -/
def setComponent (c : Component) (name : String) (child : Ref) : Except PropertyError Component :=
  match c with
  | console a =>
    (a.core.setComponent ConsoleAppender.className name child).map fun core =>
      console { a with core }
  | file a =>
    (a.core.setComponent FileAppender.className name child).map fun core => file { a with core }
  | custom c =>
    (c.type.setComponent c.fields name child).map fun fields => custom { c with fields }
  | _ => .error (.notFound name c.className)

/-- Adds a child to a collection. -/
def addComponent (c : Component) (name : String) (child : Ref) : Except PropertyError Component :=
  match c with
  | console a =>
    (a.core.addComponent ConsoleAppender.className name child).map fun core =>
      console { a with core }
  | file a =>
    (a.core.addComponent FileAppender.className name child).map fun core => file { a with core }
  | logger l => (l.addComponent name child).map logger
  | custom c =>
    (c.type.addComponent c.fields name child).map fun fields => custom { c with fields }
  | _ => .error (.notFound name c.className)

/-- The activated component, or why it refuses; nothing for a component that is never activated. -/
def activate? : Component → Option (Except String Component)
  | console a => some (a.activate.map console)
  | file a => some (a.activate.map file)
  | layout l => some (l.activate.map layout)
  | encoder e => some (e.activate.map encoder)
  | threshold f => some (f.activate.map threshold)
  | levelFilter f => some (f.activate.map levelFilter)
  | custom c =>
    (c.type.activate c.fields).map fun result => result.map fun fields => custom { c with fields }
  | _ => none

/-- Whether a component of a built-in class was activated; nothing for one that is never
activated. -/
def isActive? : Component → Option Bool
  | console a => some a.core.active
  | file a => some a.core.active
  | layout l => some l.active
  | encoder e => some e.layout.active
  | threshold f => some f.active
  | levelFilter f => some f.active
  | _ => none

/-- The components held in the slots and collections of a component. -/
def children : Component → List Ref
  | console a => a.core.encoder.toList ++ a.core.layout.toList ++ a.core.filters
  | file a => a.core.encoder.toList ++ a.core.layout.toList ++ a.core.filters
  | logger l => l.appenders
  | custom c => c.fields.slots.map Prod.snd ++ (c.fields.collections.map Prod.snd).flatten
  | _ => []

end Component
end LogConfig
