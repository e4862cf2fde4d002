/-
Automation.Config — settings of the engine and its server.

Settings come from named variables of the environment. A number that is
not written in digits, or is too large, counts as not given.
-/
import Automation.Workflow.Decode
import Automation.Workflow.Encode

namespace Automation

open Automation.Json (Value)
open Automation.Decode

/-- Where the server listens. -/
structure ServerConfig where
  host : String
  port : Nat
  deriving Repr, Inhabited

/-- Settings of the engine. -/
structure EngineConfig where
  /-- The environment of runs that name none. -/
  environment : String
  /-- The milliseconds that a webhook may take at most. -/
  webTimeout : Nat
  /-- The milliseconds that a script may take unless it says. -/
  scriptTimeout : Nat
  deriving Repr, Inhabited

/-- All settings. -/
structure Config where
  server : ServerConfig
  engine : EngineConfig
  deriving Repr, Inhabited

namespace Config

/-- The number that a variable gives, if it is at most `bound`. -/
def number? (bound : Nat) (text : Option String) : Option Nat :=
  text.bind fun text => Text.unsigned? bound text.toList

/-- The settings that the variables of an environment make. -/
def ofEnvironment (lookup : String → Option String) : Config where
  server := {
    host := (lookup "TASKWAY_HOST").getD "0.0.0.0"
    port := (number? Text.largest16 (lookup "TASKWAY_PORT")).getD 3004 }
  engine := {
    environment := (lookup "TASKWAY_ENVIRONMENT").getD "production"
    webTimeout := (number? Text.largest64 (lookup "TASKWAY_HTTP_TIMEOUT_MS")).getD 30000
    scriptTimeout := (number? Text.largest64 (lookup "TASKWAY_SCRIPT_TIMEOUT_MS")).getD 5000 }

end Config

/-- The JSON value of the settings of a server. -/
def ServerConfig.toJson (c : ServerConfig) : Value :=
  .ofFields [("host", .string c.host), ("port", .ofNat c.port)]

/-- Read the settings of a server. -/
def ServerConfig.decode : Decoder ServerConfig :=
  Reader.decode "ServerConfig" <|
    ServerConfig.mk <$> required "host" text <*> required "port" (natural .u16)

/-- The JSON value of the settings of an engine. -/
def EngineConfig.toJson (c : EngineConfig) : Value :=
  .ofFields [
    ("environment", .string c.environment),
    ("http_timeout_ms", .ofNat c.webTimeout),
    ("script_timeout_ms", .ofNat c.scriptTimeout)]

/-- Read the settings of an engine. -/
def EngineConfig.decode : Decoder EngineConfig :=
  Reader.decode "EngineConfig" <|
    EngineConfig.mk <$> required "environment" text
      <*> required "http_timeout_ms" (natural .u64)
      <*> required "script_timeout_ms" (natural .u64)

/-- The JSON value of all settings. -/
def Config.toJson (c : Config) : Value :=
  .ofFields [("server", c.server.toJson), ("engine", c.engine.toJson)]

/-- Read all settings. -/
def Config.decode : Decoder Config :=
  Reader.decode "Config" <|
    Config.mk <$> required "server" ServerConfig.decode <*> required "engine" EngineConfig.decode

end Automation
