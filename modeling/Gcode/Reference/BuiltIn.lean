import Gcode.Reference

/-! The reference for milling machines that comes with the program. -/
namespace Gcode.Reference

def builtInName : String := "fanuc-mill"

def builtInHeading : String := "[reference]
name = \"fanuc-mill\"
version = \"1.0\"
description = \"Common Fanuc-style milling G and M codes\"

"

def builtInCodes : String := "[[codes]]
name = \"G0\"
summary = \"Rapid positioning\"
details = \"Moves to the target at maximum traverse rate. Not used for cutting.\"
parameters = [
  \x7b letter = \"X\", description = \"X axis target\" \x7d,
  \x7b letter = \"Y\", description = \"Y axis target\" \x7d,
  \x7b letter = \"Z\", description = \"Z axis target\" \x7d,
]

[[codes]]
name = \"G1\"
summary = \"Linear interpolation\"
details = \"Straight-line feed move at the programmed feed rate.\"
parameters = [
  \x7b letter = \"X\", description = \"X axis target\" \x7d,
  \x7b letter = \"Y\", description = \"Y axis target\" \x7d,
  \x7b letter = \"Z\", description = \"Z axis target\" \x7d,
  \x7b letter = \"F\", description = \"Feed rate per minute\" \x7d,
]

[[codes]]
name = \"G2\"
summary = \"Circular interpolation clockwise\"
parameters = [
  \x7b letter = \"X\", description = \"X axis end point\" \x7d,
  \x7b letter = \"Y\", description = \"Y axis end point\" \x7d,
  \x7b letter = \"I\", description = \"X offset to arc center\" \x7d,
  \x7b letter = \"J\", description = \"Y offset to arc center\" \x7d,
  \x7b letter = \"R\", description = \"Arc radius\" \x7d,
  \x7b letter = \"F\", description = \"Feed rate per minute\" \x7d,
]

[[codes]]
name = \"G3\"
summary = \"Circular interpolation counter-clockwise\"
parameters = [
  \x7b letter = \"X\", description = \"X axis end point\" \x7d,
  \x7b letter = \"Y\", description = \"Y axis end point\" \x7d,
  \x7b letter = \"I\", description = \"X offset to arc center\" \x7d,
  \x7b letter = \"J\", description = \"Y offset to arc center\" \x7d,
  \x7b letter = \"R\", description = \"Arc radius\" \x7d,
  \x7b letter = \"F\", description = \"Feed rate per minute\" \x7d,
]

[[codes]]
name = \"G4\"
summary = \"Dwell\"
parameters = [\x7b letter = \"P\", description = \"Dwell time\" \x7d]

[[codes]]
name = \"G15\"
summary = \"Polar coordinate cancel / work offset select\"

[[codes]]
name = \"G17\"
summary = \"XY plane selection\"

[[codes]]
name = \"G18\"
summary = \"XZ plane selection\"

[[codes]]
name = \"G19\"
summary = \"YZ plane selection\"

[[codes]]
name = \"G20\"
summary = \"Inch units\"

[[codes]]
name = \"G21\"
summary = \"Metric units\"

[[codes]]
name = \"G28\"
summary = \"Return to machine home\"

[[codes]]
name = \"G40\"
summary = \"Cutter compensation cancel\"

[[codes]]
name = \"G41\"
summary = \"Cutter compensation left\"

[[codes]]
name = \"G42\"
summary = \"Cutter compensation right\"

[[codes]]
name = \"G43\"
summary = \"Tool length compensation\"
parameters = [\x7b letter = \"H\", description = \"Length offset register\" \x7d]

[[codes]]
name = \"G54\"
summary = \"Work coordinate system 1\"

[[codes]]
name = \"G54.1\"
summary = \"Additional work coordinate system\"
parameters = [\x7b letter = \"P\", description = \"Work offset index\" \x7d]

[[codes]]
name = \"G55\"
summary = \"Work coordinate system 2\"

[[codes]]
name = \"G56\"
summary = \"Work coordinate system 3\"

[[codes]]
name = \"G57\"
summary = \"Work coordinate system 4\"

[[codes]]
name = \"G58\"
summary = \"Work coordinate system 5\"

[[codes]]
name = \"G59\"
summary = \"Work coordinate system 6\"

[[codes]]
name = \"G65\"
summary = \"Macro subprogram call\"
parameters = [\x7b letter = \"P\", description = \"Program number\" \x7d]

[[codes]]
name = \"G80\"
summary = \"Canned cycle cancel\"

[[codes]]
name = \"G90\"
summary = \"Absolute positioning\"

[[codes]]
name = \"G91\"
summary = \"Incremental positioning\"

[[codes]]
name = \"G154\"
summary = \"Additional work coordinate system\"
parameters = [\x7b letter = \"P\", description = \"Work offset index\" \x7d]

[[codes]]
name = \"M0\"
summary = \"Program stop\"

[[codes]]
name = \"M1\"
summary = \"Optional stop\"

[[codes]]
name = \"M3\"
summary = \"Spindle on clockwise\"
parameters = [\x7b letter = \"S\", description = \"Spindle speed in RPM\" \x7d]

[[codes]]
name = \"M4\"
summary = \"Spindle on counter-clockwise\"
parameters = [\x7b letter = \"S\", description = \"Spindle speed in RPM\" \x7d]

[[codes]]
name = \"M5\"
summary = \"Spindle stop\"

[[codes]]
name = \"M6\"
summary = \"Tool change\"
parameters = [\x7b letter = \"T\", description = \"Tool number\" \x7d]

[[codes]]
name = \"M8\"
summary = \"Coolant on\"

[[codes]]
name = \"M9\"
summary = \"Coolant off\"

[[codes]]
name = \"M30\"
summary = \"Program end and rewind\"

[[codes]]
name = \"M97\"
summary = \"Local subprogram call\"
parameters = [
  \x7b letter = \"P\", description = \"Line number (N) of the subprogram\" \x7d,
  \x7b letter = \"L\", description = \"Repeat count\" \x7d,
]

[[codes]]
name = \"M98\"
summary = \"Subprogram call\"
parameters = [\x7b letter = \"P\", description = \"Program number\" \x7d]

[[codes]]
name = \"M99\"
summary = \"Subprogram return\"
"

def builtInText : String := builtInHeading ++ builtInCodes

private def axisTargets : List Parameter :=
  [⟨"X", "X axis target"⟩, ⟨"Y", "Y axis target"⟩, ⟨"Z", "Z axis target"⟩]

private def arcWords : List Parameter :=
  [⟨"X", "X axis end point"⟩, ⟨"Y", "Y axis end point"⟩, ⟨"I", "X offset to arc center"⟩,
    ⟨"J", "Y offset to arc center"⟩, ⟨"R", "Arc radius"⟩, ⟨"F", "Feed rate per minute"⟩]

def builtInListing : Listing where
  name := builtInName
  version := some "1.0"
  description := some "Common Fanuc-style milling G and M codes"
  codes := [
    { name := "G0", summary := some "Rapid positioning",
      details := some "Moves to the target at maximum traverse rate. Not used for cutting.",
      parameters := axisTargets },
    { name := "G1", summary := some "Linear interpolation",
      details := some "Straight-line feed move at the programmed feed rate.",
      parameters := axisTargets ++ [⟨"F", "Feed rate per minute"⟩] },
    { name := "G2", summary := some "Circular interpolation clockwise", parameters := arcWords },
    { name := "G3", summary := some "Circular interpolation counter-clockwise",
      parameters := arcWords },
    { name := "G4", summary := some "Dwell", parameters := [⟨"P", "Dwell time"⟩] },
    { name := "G15", summary := some "Polar coordinate cancel / work offset select" },
    { name := "G17", summary := some "XY plane selection" },
    { name := "G18", summary := some "XZ plane selection" },
    { name := "G19", summary := some "YZ plane selection" },
    { name := "G20", summary := some "Inch units" },
    { name := "G21", summary := some "Metric units" },
    { name := "G28", summary := some "Return to machine home" },
    { name := "G40", summary := some "Cutter compensation cancel" },
    { name := "G41", summary := some "Cutter compensation left" },
    { name := "G42", summary := some "Cutter compensation right" },
    { name := "G43", summary := some "Tool length compensation",
      parameters := [⟨"H", "Length offset register"⟩] },
    { name := "G54", summary := some "Work coordinate system 1" },
    { name := "G54.1", summary := some "Additional work coordinate system",
      parameters := [⟨"P", "Work offset index"⟩] },
    { name := "G55", summary := some "Work coordinate system 2" },
    { name := "G56", summary := some "Work coordinate system 3" },
    { name := "G57", summary := some "Work coordinate system 4" },
    { name := "G58", summary := some "Work coordinate system 5" },
    { name := "G59", summary := some "Work coordinate system 6" },
    { name := "G65", summary := some "Macro subprogram call",
      parameters := [⟨"P", "Program number"⟩] },
    { name := "G80", summary := some "Canned cycle cancel" },
    { name := "G90", summary := some "Absolute positioning" },
    { name := "G91", summary := some "Incremental positioning" },
    { name := "G154", summary := some "Additional work coordinate system",
      parameters := [⟨"P", "Work offset index"⟩] },
    { name := "M0", summary := some "Program stop" },
    { name := "M1", summary := some "Optional stop" },
    { name := "M3", summary := some "Spindle on clockwise",
      parameters := [⟨"S", "Spindle speed in RPM"⟩] },
    { name := "M4", summary := some "Spindle on counter-clockwise",
      parameters := [⟨"S", "Spindle speed in RPM"⟩] },
    { name := "M5", summary := some "Spindle stop" },
    { name := "M6", summary := some "Tool change", parameters := [⟨"T", "Tool number"⟩] },
    { name := "M8", summary := some "Coolant on" },
    { name := "M9", summary := some "Coolant off" },
    { name := "M30", summary := some "Program end and rewind" },
    { name := "M97", summary := some "Local subprogram call",
      parameters := [⟨"P", "Line number (N) of the subprogram"⟩, ⟨"L", "Repeat count"⟩] },
    { name := "M98", summary := some "Subprogram call", parameters := [⟨"P", "Program number"⟩] },
    { name := "M99", summary := some "Subprogram return" }]

def builtIn : Reference := ofListing builtInListing

end Gcode.Reference
