import BlockSynth.Catalog
import BlockSynth.Text.Columns
import BlockSynth.Zig.Base

/-! # Devices

Sensors, messages and timers of a device. Their routines are provided by its firmware.
-/
namespace BlockSynth.Zig

/-- Run the body for ever, and sleep after each round. -/
def every (config : Config) (node : Node) : Script Emission := do
  let seconds := ((node.fieldNumber "DURATION").getD (Decimal.toBinary64 ⟨false, 1, 0⟩)).codeText
  let body ← .askLoopBody "STMTS"
  let wait := s!"{config.indentUnit}// Wait {seconds} seconds\n" ++
    s!"{config.indentUnit}_ = c.sleep({seconds});\n"
  return .statement
    (s!"\n// Every {seconds} seconds...\n" ++ braces "while (true)" (body ++ wait) ++ "\n")

/-- A name and a value for a message, with the commas that go with them. -/
def messageField (_ : Config) (node : Node) : Script Emission := do
  let name := quote (optionOr node "NAME" "")
  let value ← .valueOr "name" .atomic "null"
  return .value s!"{name}, {value}," .none

/-- Humidity has a struct of its own. -/
def sensorStruct (reading : String) : String :=
  if reading = "humidity" then "struct_sensor_humi" else "struct_sensor_baro"

/-- One reading of a BME280 sensor. -/
def readSensor (config : Config) (node : Node) : Script Emission :=
  let reading := optionOr node "FIELD" "temperature"
  let field := quote reading
  let path := quote (optionOr node "PATH" "/dev/sensor/sensor_baro0")
  let struct := sensorStruct reading
  let lines := Text.alignComments
    ["try sen.readSensor(  // Read BME280 Sensor",
      s!"{config.indentUnit}c.{struct},  // Sensor Data Struct",
      s!"{config.indentUnit}{field},  // Sensor Data Field",
      s!"{config.indentUnit}{path}  // Path of Sensor Device",
      ")"]
  .done (.value (Text.join "\n" lines) .unaryPrefix)

def transmit (_ : Config) (_ : Node) : Script Emission := do
  let message ← .valueOr "MSG" .atomic emptyText
  return .statement s!"\n// Transmit message to LoRaWAN\ntry transmitLorawan({message});\n"

/-- A message of the given fields, one on a line. -/
def composeMessage (config : Config) (node : Node) : Script Emission := do
  let elements ← .valuesOr .none emptyText (itemSlots node)
  let lines :=
    if elements.isEmpty then ""
    else Text.prefixLines config.indentUnit (Text.join "\n" elements) ++ "\n"
  return .value
    ("try composeCbor(.\x7b  // Compose CBOR Message\n" ++ lines ++ "\x7d)") .unaryPrefix

def devices : List (String × Emitter) :=
  [("every", ⟨every, false⟩), ("field", ⟨messageField, false⟩), ("bme280", ⟨readSensor, false⟩),
    ("transmit_msg", ⟨transmit, false⟩), ("compose_msg", ⟨composeMessage, false⟩)]

end BlockSynth.Zig
